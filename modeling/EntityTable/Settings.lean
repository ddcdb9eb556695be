import EntityTable.Json
import EntityTable.Logged
import EntityTable.Storage.Path
import EntityTable.Text.Integer

/-!
Where to read and write, and how to format the artifact: from a decoded object or from environment
variables.
-/

namespace EntityTable

/-- Variables and their values, both as they come back from outside. -/
abbrev Environment := Entries Text

/-- How a package fails: with an error of values, which its callers expect, or with another one. -/
inductive PackageFault
  | value (message : Text)
  | other (message : Text)
  deriving DecidableEq

def PackageFault.message : PackageFault → Text
  | .value message | .other message => message

/-- A package that adds variables from a file to those of an environment. Which file it reads, how
and what it makes of it are its own. -/
abbrev VariableReader := Environment → Logged PackageFault Environment

structure Settings where
  input : Path
  output : Path
  indent : Option Int
  sortKeys : Bool
  deriving DecidableEq

inductive SettingsFault
  | notObject (found : Text)
  | notPath (found : Text)
  | notIndent (found : Text)
  | indentNaN
  | indentInfinite
  | indentText (fault : Text.IntegerFault)
  | indentVariable (value : Text)
  | variables (fault : PackageFault)

namespace SettingsFault

def message : SettingsFault → Text
  | .notObject found => Text.concat ["'", found, "' object has no attribute 'get'"]
  | .notPath found => Text.concat ["expected str, bytes or os.PathLike object, not ", found]
  | .notIndent found =>
    Text.concat ["int() argument must be a string, a bytes-like object or a real number, not '",
      found, "'"]
  | .indentNaN => "cannot convert float NaN to integer"
  | .indentInfinite => "cannot convert float infinity to integer"
  | .indentText fault => fault.message
  | .indentVariable value =>
    Text.concat ["ENTITY_COMPILER_INDENT must be an integer, got ", value.quoted]
  | .variables fault => fault.message

/-- Errors of values are expected where settings are asked for, the others are not. -/
def isExpected : SettingsFault → Bool
  | .notObject _ | .notPath _ | .notIndent _ | .indentInfinite | .variables (.other _) => false
  | .indentNaN | .indentText _ | .indentVariable _ | .variables (.value _) => true

end SettingsFault

namespace Settings

def default : Settings := ⟨"data/entities-raw.json", "data/entities.json", none, false⟩

/-- A path given as anything but text is refused, null included. -/
def path (fallback : Path) : Option Json → Except SettingsFault Path
  | none => .ok fallback
  | some (.string t) => .ok (Path.ofText t)
  | some v => .error (.notPath v.typeName)

/-- Text is read as an integer, fractions are cut off, and truth values count as 0 and 1. -/
def indentation : Option Json → Except SettingsFault (Option Int)
  | none | some .null => .ok none
  | some (.bool b) => .ok (some (if b then 1 else 0))
  | some (.int i) => .ok (some i)
  | some (.float x) =>
    match x.truncate? with
    | some i => .ok (some i)
    | none => .error (if x.isNaN then .indentNaN else .indentInfinite)
  | some (.string t) => (t.readInteger.mapError .indentText).map some
  | some v => .error (.notIndent v.typeName)

def ofJson : Json → Except SettingsFault Settings
  | .object members => do
    let input ← path default.input (Entries.get? "input_path" members)
    let output ← path default.output (Entries.get? "output_path" members)
    let indent ← indentation (Entries.get? "indent" members)
    let sortKeys := ((Entries.get? "sort_keys" members).map Json.isTruthy).getD false
    return ⟨input, output, indent, sortKeys⟩
  | v => .error (.notObject v.typeName)

def inputVariable : Text := "ENTITY_COMPILER_INPUT"

def outputVariable : Text := "ENTITY_COMPILER_OUTPUT"

def indentVariable : Text := "ENTITY_COMPILER_INDENT"

def sortKeysVariable : Text := "ENTITY_COMPILER_SORT_KEYS"

def variableNames : List Text :=
  [inputVariable, outputVariable, indentVariable, sortKeysVariable]

/-- An empty variable counts as one that is not set. -/
def valueOf? (environment : Environment) (name : Text) : Option Text :=
  (environment.get? name).filter fun value => !value.isEmpty

def indentOf (value : Text) : Except SettingsFault Int :=
  value.readInteger.mapError fun _ => .indentVariable value

/-- What turns a switch on, in either case of its letters. -/
def affirmatives : List Text := ["1", "true", "yes"]

/-- Every setting comes from a variable of its own. -/
def ofEnvironment (environment : Environment) : Except SettingsFault Settings := do
  let valueOf? := valueOf? environment
  let indent ← (valueOf? indentVariable).mapM indentOf
  return {
    input := ((valueOf? inputVariable).map Path.ofText).getD default.input
    output := ((valueOf? outputVariable).map Path.ofText).getD default.output
    indent
    sortKeys := match valueOf? sortKeysVariable with
      | none => default.sortKeys
      | some value => affirmatives.contains value.toAsciiLower }

/-- Settings from the environment, once the variables of a file are added to it. -/
def load (readVariables : VariableReader) (environment : Environment) :
    Logged SettingsFault Settings := do
  ofEnvironment (← (readVariables environment).mapError .variables)

end Settings
end EntityTable
