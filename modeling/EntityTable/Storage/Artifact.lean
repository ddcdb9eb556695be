import EntityTable.Compilation
import EntityTable.Json.Reader
import EntityTable.Storage.Failure
import EntityTable.Text.Utf8

/-!
Loading authored tables from a file tree and storing artifacts in it. An artifact is written to a
temporary file first and moved into place when it is complete.
-/

namespace EntityTable.Storage

/-- Bad bytes and bad text are the author's to mend; only an integer past the digit limit is not. -/
def loadTable (tree : FileTree) (path : Text) : Except Failure Authored.Table := do
  let bytes ← (tree.read path).mapError .refused
  let bad (cause : Text) : Failure := .uncompiled (.malformed (.notJson path cause) none none)
  let text ← (Text.ofUtf8 bytes).mapError fun fault => bad fault.message
  let source := text.unifyNewlines
  let input ← (Json.read source).mapError fun
    | .integerTooLong digits => .integerTooLong digits
    | e => bad (e.message source)
  (Authored.Table.ofJson input).mapError .uncompiled

/-- How far a level is indented, unless that is left blank. A negative width is as good as zero. -/
inductive Indent
  | columns (width : Int)
  | blank
  deriving DecidableEq

/-- How an artifact is laid out. -/
structure Format where
  indent : Option Indent
  sortKeys : Bool
  deriving DecidableEq

namespace Format

/-- An indentation past this magnitude is refused. -/
def maxIndent : Int := 0x7FFFFFFFFFFFFFFF

/-- The columns of one level are made before anything is written. -/
def layout (memory : Memory) (format : Format) : Except Failure Json.Layout :=
  match format.indent with
  | none => .ok .compact
  | some .blank => .error .indentBlank
  | some (.columns width) =>
    if width < -maxIndent - 1 ∨ maxIndent < width then .error .indentTooLarge
    else if memory.capacity < width.toNat then .error .notHeld
    else .ok (.indented width.toNat)

def arrange (format : Format) (v : Json) : Json := if format.sortKeys then v.sortKeys else v

end Format

/-- What is left in the tree, what was logged, and how it ended. -/
structure Outcome (α : Type) where
  tree : FileTree
  result : Logged Failure α

namespace Outcome

variable {α β : Type}

def fail (tree : FileTree) (failure : Failure) : Outcome α := ⟨tree, .ofExcept (.error failure)⟩

def andThen (x : Outcome α) (f : FileTree → α → Outcome β) : Outcome β :=
  match x.result.outcome with
  | .error e => ⟨x.tree, ⟨x.result.log, .error e⟩⟩
  | .ok a =>
    let y := f x.tree a
    ⟨y.tree, ⟨x.result.log ++ y.result.log, y.result.outcome⟩⟩

end Outcome

/-- How many items the log speaks of; a single value has none. -/
def itemCount? : Json → Option Nat
  | .object members => some members.length
  | .array items => some items.length
  | .string t => some t.length
  | _ => none

/-- Fills the temporary file and moves it over the target. A value that cannot be written, or a
target that cannot be replaced, takes the temporary file with it. A fault of the machine leaves it,
with what was written so far. -/
def replaceArtifact (memory : Memory) (tree : FileTree) (temporary : Place) (target : Path)
    (format : Format) (v : Json) : FileTree × Except Failure Unit :=
  match format.layout memory with
  | .error e => (tree, .error e)
  | .ok layout =>
    let (text, ending) := (format.arrange v).write memory layout
    let written := tree.put temporary (.file text.toUtf8)
    match ending with
    | .error fault =>
      let left := if fault.isOfValue then written.remove temporary else written
      (left, .error (.ofWriteFault target.toText fault))
    | .ok () =>
      match written.moveOver temporary target with
      | .ok moved => (moved, .ok ())
      | .error fault => (written.remove temporary, .error (.notReplaced target.toText fault))

def writeJson (memory : Memory) (tree : FileTree) (target : Path) (format : Format) (v : Json) :
    Outcome Unit :=
  match tree.makeTemporary target with
  | .error fault => .fail tree (.aboutArtifact (.noTemporary target.toText) fault)
  | .ok (temporary, opened) =>
    match replaceArtifact memory opened temporary target format v with
    | (left, .error e) => .fail left e
    | (left, .ok ()) =>
      match itemCount? v with
      | none => .fail left (.noLength v.typeName)
      | some n => ⟨left, Logged.write (.wrote n target.toText)⟩

/-- Whether two paths lead to the same place. -/
def samePlace (tree : FileTree) (a b : Path) : Bool :=
  a.locate tree.workingDirectory = b.locate tree.workingDirectory

/-- Makes the directory of the output if asked to. -/
def prepareDirectory (tree : FileTree) (output : Text) (wanted : Bool) : Outcome Unit :=
  if !wanted then ⟨tree, pure ()⟩
  else
    let (made, result) := tree.makeDirectories (Path.ofText output).parent
    ⟨made, .ofExcept (result.mapError (.aboutArtifact (.noDirectory output)))⟩

/-- Compiles one file to another. Nothing is written unless the whole table compiles, and never
over the input. -/
def compileFile (memory : Memory) (tree : FileTree) (input output : Text) (format : Format)
    (makeDirs : Bool) : Outcome Table :=
  let fault? := (Path.ofText input).externalFault?.or (Path.ofText output).externalFault?
  if let some fault := fault? then
    .fail tree (.refused (.notPath fault))
  else if samePlace tree (.ofText input) (.ofText output) then
    .fail tree (.overwritesInput output)
  else
    let compiled : Logged Failure Table := do
      let authored ← loadTable tree input
      authored.compile.mapError .uncompiled
    (Outcome.mk tree compiled).andThen fun tree table =>
      (prepareDirectory tree output makeDirs).andThen fun tree () =>
        (writeJson memory tree (.ofText output) format table.toJson).andThen fun tree () =>
          ⟨tree, pure table⟩

end EntityTable.Storage
