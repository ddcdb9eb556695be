import EntityTable.Failure
import EntityTable.Json.Writer
import EntityTable.Storage.FileTree

/-!
Why a table is not loaded, compiled and stored.
-/

namespace EntityTable.Storage

inductive Failure
  | uncompiled (cause : EntityTable.Failure)
  | integerTooLong (digits : Nat)
  | refused (fault : SystemFault)
  | overwritesInput (output : Text)
  | noDirectory (output : Text) (fault : SystemFault)
  | noTemporary (path : Text) (fault : SystemFault)
  | notReplaced (path : Text) (fault : SystemFault)
  | notFinite (path : Text) (found : Binary64)
  | tooManyDigits (path : Text)
  | indentTooLarge
  | indentBlank
  | lineTooLong
  | notHeld
  | noLength (found : Text)

namespace Failure

def artifact (parts : List Text) : Option Diagnostic := some ⟨Text.concat parts, none, none⟩

/-- The failures with a place in the table or about the artifact; the others have a message only. -/
def diagnostic? : Failure → Option Diagnostic
  | .uncompiled cause => cause.diagnostic?
  | .overwritesInput output => artifact ["output path ", output, " would overwrite the raw input"]
  | .noDirectory output fault =>
    artifact ["cannot create directory for ", output, ": ", fault.message]
  | .noTemporary path fault =>
    artifact ["cannot create temporary file for ", path, ": ", fault.message]
  | .notReplaced path fault => artifact ["cannot write ", path, ": ", fault.message]
  | .notFinite path found =>
    artifact ["cannot write ", path, ": Out of range float values are not JSON compliant: ",
      found.toText]
  | .tooManyDigits path =>
    artifact ["cannot write ", path, ": Exceeds the limit (", Text.ofNat Text.maxIntegerDigits,
      " digits) for integer string conversion; use sys.set_int_max_str_digits() to increase the ",
      "limit"]
  | .integerTooLong _ | .refused _ | .indentTooLarge | .indentBlank | .lineTooLong | .notHeld
  | .noLength _ => none

/-- A text that is no path is no fault of the artifact's. -/
def aboutArtifact (failure : SystemFault → Failure) : SystemFault → Failure
  | .notPath fault => .refused (.notPath fault)
  | fault => failure fault

def ofWriteFault (path : Text) : Json.WriteFault → Failure
  | .notFinite x => .notFinite path x
  | .integerTooLong => .tooManyDigits path
  | .lineTooLong => .lineTooLong
  | .notHeld => .notHeld

def message (failure : Failure) : Text :=
  match failure with
  | .uncompiled cause => cause.message
  | .integerTooLong digits => (Text.IntegerFault.tooManyDigits digits).message
  | .refused fault => fault.message
  | .indentTooLarge => "cannot fit 'int' into an index-sized integer"
  | .indentBlank => "can't multiply sequence by non-int of type 'list'"
  | .lineTooLong => "repeated string is too long"
  | .notHeld => []
  | .noLength found => Text.concat ["object of type '", found, "' has no len()"]
  | _ => (failure.diagnostic?.map Diagnostic.text).getD []

end Failure
end EntityTable.Storage
