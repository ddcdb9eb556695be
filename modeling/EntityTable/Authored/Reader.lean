import EntityTable.Authored
import EntityTable.Failure

/-!
Reading authored tables. Fields are looked at in a fixed order, and the first offence is the one
reported. Keys without a meaning here are kept as they are.
-/

namespace EntityTable.Authored

abbrev Members := Entries Json

/-- Where a field stands, for the report of an offence. -/
structure Site where
  owner : Text
  field : FieldPath

def Site.refuse {α : Type} (site : Site) (offence : Offence) : Except Failure α :=
  .error (.malformed offence (some site.owner) (some site.field))

def number? (site : Site) : Option Json → Except Failure (Option Binary64)
  | none | some .null => .ok none
  | some (.int i) => (Binary64.ofInt? i).elim (.error .integerTooLarge) fun x => .ok (some x)
  | some (.float x) => if x.isFinite then .ok (some x) else site.refuse (.notNumber (.float x))
  | some v => site.refuse (.notNumber v)

def string? (site : Site) : Option Json → Except Failure (Option Text)
  | none | some .null => .ok none
  | some (.string t) => .ok (some t)
  | some v => site.refuse (.notString v.typeName)

/-- What is absent is false. -/
def flag (site : Site) : Option Json → Except Failure Bool
  | none | some .null => .ok false
  | some (.bool b) => .ok b
  | some v => site.refuse (.notBool v.typeName)

def mountObject (owner : Text) (list : MountList) (index : Nat) : Json → Except Failure Members
  | .object members => .ok members
  | v => Site.refuse ⟨owner, .mount list index⟩ (.notObject v.typeName)

/-- A list is refused as a whole before any entry is, and entries that are no objects before any
field of an entry. -/
def mountObjects (owner : Text) (members : Members) (list : MountList) :
    Except Failure (List Members) :=
  match members.get? list.key with
  | none | some .null => .ok []
  | some (.array items) =>
    items.zipIdx.mapM fun (item, index) => mountObject owner list index item
  | some v => Site.refuse ⟨owner, .direct list.key⟩ (.notList v.typeName)

namespace Turret

def knownKeys : List Text := ["angle", "positionSide", "symmetrical", "type"]

def ofMembers (owner : Text) (index : Nat) (members : Members) : Except Failure Turret := do
  let site (key : Text) : Site := ⟨owner, .mountAttribute .turrets index key⟩
  let angle ← number? (site "angle") (members.get? "angle")
  let side ← number? (site "positionSide") (members.get? "positionSide")
  let symmetrical ← flag (site "symmetrical") (members.get? "symmetrical")
  let reference ← string? (site "type") (members.get? "type")
  return ⟨angle.getD 0, side.getD 0, symmetrical, reference, members.without knownKeys⟩

end Turret

namespace Armament

def knownKeys : List Text := ["angle", "positionSide", "symmetrical", "turret"]

/-- Which turret carries an armament is for the compiler to say. -/
def refuseTurret (site : Site) : Option Json → Except Failure Unit
  | none | some .null => .ok ()
  | some _ => site.refuse .turretDeclared

def ofMembers (owner : Text) (index : Nat) (members : Members) : Except Failure Armament := do
  let site (key : Text) : Site := ⟨owner, .mountAttribute .armaments index key⟩
  refuseTurret (site "turret") (members.get? "turret")
  let angle ← number? (site "angle") (members.get? "angle")
  let side ← number? (site "positionSide") (members.get? "positionSide")
  let symmetrical ← flag (site "symmetrical") (members.get? "symmetrical")
  return ⟨angle.getD 0, side.getD 0, symmetrical, members.without knownKeys⟩

end Armament

namespace Sensor

def knownKeys : List Text := ["range"]

def ofMembers (owner : Text) (index : Nat) (members : Members) : Except Failure Sensor := do
  let range ← number? ⟨owner, .mountAttribute .sensors index "range"⟩ (members.get? "range")
  return ⟨range, members.without knownKeys⟩

end Sensor

def mounts {α : Type} (owner : Text) (members : Members) (list : MountList)
    (ofMembers : Text → Nat → Members → Except Failure α) : Except Failure (List α) := do
  let objects ← mountObjects owner members list
  objects.zipIdx.mapM fun (mount, index) => ofMembers owner index mount

namespace Template

def knownKeys : List Text :=
  ["type", "subtype", "length", "range", "damage", "turrets", "armaments", "sensors"]

def ofMembers (owner : Text) (members : Members) : Except Failure Template := do
  let site (key : Text) : Site := ⟨owner, .direct key⟩
  let kind ← string? (site "type") (members.get? "type")
  let subtype ← string? (site "subtype") (members.get? "subtype")
  let length ← number? (site "length") (members.get? "length")
  let range ← number? (site "range") (members.get? "range")
  let damage ← number? (site "damage") (members.get? "damage")
  let turrets ← mounts owner members .turrets Turret.ofMembers
  let armaments ← mounts owner members .armaments Armament.ofMembers
  let sensors ← mounts owner members .sensors Sensor.ofMembers
  return ⟨kind, subtype, length, range, damage, turrets, armaments, sensors,
    members.without knownKeys⟩

def ofJson (owner : Text) : Json → Except Failure Template
  | .object members => ofMembers owner members
  | v => .error (.malformed (.notTemplate v.typeName) (some owner) none)

end Template

def Table.ofJson : Json → Except Failure Table
  | .object members => members.mapM fun (key, v) => do return (key, ← Template.ofJson key v)
  | v => .error (.malformed (.notTable v.typeName) none none)

end EntityTable.Authored
