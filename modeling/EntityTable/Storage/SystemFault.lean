import EntityTable.Storage.Path
import EntityTable.Text.External

/-!
Why the system refuses a path: it cannot be put to it at all, or it answers with an error.
-/

namespace EntityTable

/-- Following a path asks about every stop on it; the first that has no bytes is at fault. -/
def Path.externalFault? (p : Path) : Option ExternalFault :=
  p.stops.findSome? fun stop => stop.toText.externalFault?

inductive SystemError
  | noEntry
  | alreadyThere
  | notDirectory
  | isDirectory
  | nameTooLong
  deriving DecidableEq

namespace SystemError

def number : SystemError → Nat
  | .noEntry => 2
  | .alreadyThere => 17
  | .notDirectory => 20
  | .isDirectory => 21
  | .nameTooLong => 36

def label : SystemError → Text
  | .noEntry => "No such file or directory"
  | .alreadyThere => "File exists"
  | .notDirectory => "Not a directory"
  | .isDirectory => "Is a directory"
  | .nameTooLong => "File name too long"

end SystemError

/-- The system answers about a path, or the path cannot be put to it. -/
inductive SystemFault
  | answered (error : SystemError) (path : Text)
  | notPath (fault : ExternalFault)
  deriving DecidableEq

def SystemFault.message : SystemFault → Text
  | .answered error path =>
    Text.concat ["[Errno ", Text.ofNat error.number, "] ", error.label, ": ", path.quoted]
  | .notPath fault => fault.message

end EntityTable
