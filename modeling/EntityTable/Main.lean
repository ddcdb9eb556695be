import EntityTable.CommandLine.Compile
import EntityTable.CommandLine.Curves

/-!
The program. It takes in what a command may touch, runs the command on that, and carries out what
has changed.
-/

namespace EntityTable.Program

/-- Lone surrogates do not fit in a string and become the replacement character. -/
def toString (t : Text) : String :=
  String.ofList (t.map fun c =>
    if h : c.val.isValidChar then Char.ofNatAux c.val h else Char.ofNat 0xFFFD)

def placeToString (place : Place) : String :=
  toString (Text.concat ["/", Text.join "/" place])

def nodeAt? (place : Place) : IO (Option FileNode) := do
  let path := placeToString place
  try
    if ← (← IO.FS.realPath path).isDir then return some .directory
    return some (.file (← IO.FS.readBinFile path).toList)
  catch _ => return none

/-- What stands at the places that the given paths lead along. -/
def takeIn (paths : List Path) : IO FileTree := do
  let here := (Path.ofText (Text.ofString (← IO.currentDir).toString)).parts
  let places := (paths.flatMap (FileTree.placesAlong here)).eraseDups
  let nodes ← places.filterMapM fun place => do return (← nodeAt? place).map (place, ·)
  return ⟨nodes, here⟩

/-- Writes beside the place first, so that a file is replaced as a whole or not at all. -/
def replaceFile (place : Place) (bytes : List UInt8) : IO Unit := do
  let beside (attempt : Nat) : Place :=
    place.dropLast ++ [FileTree.temporaryName (place.getLast?.getD []) attempt]
  let some free ← (List.range 1000).findM? fun n => do return (← nodeAt? (beside n)).isNone
    | throw (IO.userError "no free name for a temporary file")
  let temporary := placeToString (beside free)
  try
    IO.FS.writeBinFile temporary bytes.toByteArray
    IO.FS.rename temporary (placeToString place)
  catch e =>
    try IO.FS.removeFile temporary catch _ => pure ()
    throw e

def carryOut (before after : FileTree) : IO Unit :=
  (after.changedSince before).forM fun (place, node) =>
    match node with
    | .directory => IO.FS.createDir (placeToString place)
    | .file bytes => replaceFile place bytes

/-- The variables of the environment that count. -/
def readEnvironment (names : List Text) : IO Environment :=
  names.filterMapM fun name => do
    return (← IO.getEnv (toString name)).map fun value => (name, Text.ofString value)

/-- A host without a package that reads files of variables. It prints every code point, and lines
are indented by no more than a gibibyte. -/
def host : IO CommandLine.Compile.Host := do
  return {
    environment := ← readEnvironment Settings.variableNames
    readVariables := pure
    memory := ⟨0x40000000, by decide⟩
    charset := fun _ => true }

def finish {σ : Type} (specs : List (CommandLine.OptionSpec σ)) (before : FileTree)
    (run : CommandLine.Run) : IO UInt32 := do
  carryOut before run.tree
  run.out.forM fun line => IO.println (toString line)
  run.err.forM fun line => IO.eprintln (toString line)
  match run.ending with
  | .exit code => return code.toUInt32
  | .help =>
    specs.forM fun spec => IO.println (toString spec.usage)
    return 0
  | .usage e =>
    IO.eprintln (toString (Text.concat ["error: ", e.message]))
    return 2
  | .escaped failure =>
    IO.eprintln (toString failure.message)
    return 1
  | .blank use =>
    IO.eprintln (toString use.message)
    return 1
  | .unsettled fault =>
    IO.eprintln (toString fault.message)
    return 1
  | .unprintable line =>
    IO.eprintln (toString (Text.concat ["cannot print: ", line]))
    return 1

def compile (argv : List Text) : IO UInt32 := do
  let host ← host
  let before ← takeIn (CommandLine.Compile.paths host argv)
  finish CommandLine.Compile.options before (CommandLine.Compile.run host before argv)

def curves (argv : List Text) : IO UInt32 := do
  let before ← takeIn (CommandLine.Curves.paths argv)
  finish CommandLine.Curves.options before
    (CommandLine.Curves.run (fun _ => true) before argv)

end EntityTable.Program

/-- The first word chooses the command, and the rest are its arguments. -/
def main (args : List String) : IO UInt32 := do
  match args with
  | "compile" :: rest => EntityTable.Program.compile (rest.map EntityTable.Text.ofString)
  | "curves" :: rest => EntityTable.Program.curves (rest.map EntityTable.Text.ofString)
  | _ =>
    IO.eprintln "error: the first word must be compile or curves"
    return 2
