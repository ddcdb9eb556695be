import EntityTable.CommandLine.Argument
import EntityTable.CommandLine.Options
import EntityTable.Settings
import EntityTable.Storage.Failure

/-!
What a command leaves behind: the tree, what it printed, and how it ended.
-/

namespace EntityTable.CommandLine

inductive Ending
  | exit (code : Nat)
  | usage (error : UsageError)
  | help
  | escaped (failure : Storage.Failure)
  | blank (use : BlankUse)
  | unsettled (fault : SettingsFault)
  | unprintable (line : Text)

structure Run where
  tree : FileTree
  out : List Text
  err : List Text
  ending : Ending

/-- The code points that the output has bytes for. A line is printed as a whole or not at all. -/
abbrev Charset := CodePoint → Bool

namespace Run

def stopped (tree : FileTree) : Stop → Run
  | .help => ⟨tree, [], [], .help⟩
  | .usage e => ⟨tree, [], [], .usage e⟩

/-- Prints lines one after the other and goes on, unless one of them has no bytes. -/
def printing (charset : Charset) (tree : FileTree) : List Text → Run → Run
  | [], next => next
  | line :: lines, next =>
    if line.all charset then
      let further := printing charset tree lines next
      { further with out := line :: further.out }
    else ⟨tree, [], [], .unprintable line⟩

/-- A run after what has been said before it. -/
def after (said : List Text) (r : Run) : Run := { r with err := said ++ r.err }

end Run
end EntityTable.CommandLine
