import EntityTable.Diagnostic
import EntityTable.Json.Display
import EntityTable.WeaponSubtype

/-!
Why a table does not compile.
-/

namespace EntityTable

inductive MountList
  | turrets
  | armaments
  | sensors
  deriving DecidableEq

def MountList.key : MountList → Text
  | .turrets => "turrets"
  | .armaments => "armaments"
  | .sensors => "sensors"

/-- Where in a template something stands. -/
inductive FieldPath
  | direct (key : Text)
  | mount (list : MountList) (index : Nat)
  | mountAttribute (list : MountList) (index : Nat) (key : Text)
  deriving DecidableEq

def FieldPath.text : FieldPath → Text
  | .direct key => key
  | .mount list index => Text.concat [list.key, "[", Text.ofNat index, "]"]
  | .mountAttribute list index key => Text.concat [list.key, "[", Text.ofNat index, "].", key]

/-- What is wrong with authored input; found types go by their name. -/
inductive Offence
  | notTable (found : Text)
  | notTemplate (found : Text)
  | notNumber (found : Json)
  | notString (found : Text)
  | notBool (found : Text)
  | notList (found : Text)
  | notObject (found : Text)
  | turretDeclared
  | notJson (path : Text) (cause : Text)

def Offence.text : Offence → Text
  | .notTable found =>
    Text.concat ["entity table must be an object keyed by entity type, got ", found]
  | .notTemplate found => Text.concat ["template must be an object, got ", found]
  | .notNumber found => Text.concat ["expected a finite number, got ", found.display]
  | .notString found => Text.concat ["expected a string, got ", found]
  | .notBool found => Text.concat ["expected true or false, got ", found]
  | .notList found => Text.concat ["expected a list, got ", found]
  | .notObject found => Text.concat ["expected an object, got ", found]
  | .turretDeclared =>
    Text.concat ["authored armaments cannot declare a turret index; ",
      "reference the armament's entity type from a turret instead"]
  | .notJson path cause => Text.concat [path, " is not valid UTF-8 JSON: ", cause]

inductive DerivedAttribute
  | range
  | damage
  deriving DecidableEq

def DerivedAttribute.name : DerivedAttribute → Text
  | .range => "range"
  | .damage => "damage"

inductive Failure
  | malformed (offence : Offence) (owner : Option Text) (field : Option FieldPath)
  | lengthMissing (owner : Text) (derived : DerivedAttribute) (subtype : WeaponSubtype)
  | unknownReference (owner : Text) (turret : Nat) (target : Text)
  | referenceCycle (cycle : List Text)
  | integerTooLarge
  | unknownKey (key : Text)

namespace Failure

/-- The failures that an author can mend in the table; the others have a message only. -/
def diagnostic? : Failure → Option Diagnostic
  | .malformed offence owner field => some ⟨offence.text, owner, field.map FieldPath.text⟩
  | .lengthMissing owner derived subtype =>
    some ⟨Text.concat ["length is required to derive ", derived.name, " for ", subtype.name,
      " weapons"], some owner, some "length"⟩
  | .unknownReference owner turret target =>
    some ⟨Text.concat ["turret references unknown entity type '", target, "'"], some owner,
      some (FieldPath.mountAttribute .turrets turret "type").text⟩
  | .referenceCycle cycle => some (.referenceCycle cycle)
  | .integerTooLarge | .unknownKey _ => none

def message (failure : Failure) : Text :=
  match failure with
  | .integerTooLarge => "int too large to convert to float"
  | .unknownKey key => key.quoted
  | _ => (failure.diagnostic?.map Diagnostic.text).getD []

end Failure
end EntityTable
