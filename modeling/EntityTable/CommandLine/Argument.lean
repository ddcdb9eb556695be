import EntityTable.Storage.Path
import EntityTable.Text.Integer
import EntityTable.Text.Quoted

/-!
What a command line says about one argument.
-/

namespace EntityTable.CommandLine

/-- A blank argument is given without a value, and takes the place of an earlier value too. -/
inductive Argument (α : Type)
  | absent
  | blank
  | given (value : α)
  deriving DecidableEq

/-- What a blank argument was used for. It counts as an empty list there. -/
inductive BlankUse
  | path
  | directory
  | samples
  deriving DecidableEq

def BlankUse.message : BlankUse → Text
  | .path => "expected str, bytes or os.PathLike object, not list"
  | .directory => "'list' object has no attribute 'parent'"
  | .samples => "'<' not supported between instances of 'list' and 'int'"

namespace Argument

variable {α : Type}

def ofPath : Option Text → Argument Path
  | none => .blank
  | some t => .given (.ofText t)

/-- Refuses what is no integer, with the reason. -/
def ofInteger : Option Text → Except Text (Argument Int)
  | none => .ok .blank
  | some t =>
    match t.readInteger with
    | .ok i => .ok (.given i)
    | .error _ => .error (Text.concat ["invalid int value: ", t.quoted])

/-- The value to use, which is the fallback for an absent argument. -/
def valueFor (use : BlankUse) (fallback : α) : Argument α → Except BlankUse α
  | .absent => .ok fallback
  | .blank => .error use
  | .given value => .ok value

end Argument
end EntityTable.CommandLine
