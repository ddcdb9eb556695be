import EntityTable.Json

/-!
Resolved entity templates and the form they take in the artifact: angles in radians, every mount
listed on its own, inherited armaments marked with the turret that carries them.
-/

namespace EntityTable

structure Turret where
  angle : Binary64
  side : Binary64
  reference : Option Text
  extra : Entries Json

structure Armament where
  angle : Binary64
  side : Binary64
  turret : Option Int
  extra : Entries Json

structure Sensor where
  range : Option Binary64
  extra : Entries Json

structure Template where
  kind : Option Text
  subtype : Option Text
  length : Option Binary64
  range : Option Binary64
  damage : Option Binary64
  turrets : List Turret
  armaments : List Armament
  sensors : List Sensor
  extra : Entries Json

abbrev Table := Entries Template

/-- Members as they are, with one more if there is a value for it. -/
def putSome {α : Type} (key : Text) (toJson : α → Json) (value : Option α)
    (members : Entries Json) : Entries Json :=
  match value with
  | none => members
  | some x => members.put key (toJson x)

namespace Turret

def members (t : Turret) : Entries Json :=
  ((t.extra.put "angle" (.float t.angle)).put "positionSide" (.float t.side))
    |> putSome "type" .string t.reference

def toJson (t : Turret) : Json := .object t.members

end Turret

namespace Armament

def members (a : Armament) : Entries Json :=
  ((a.extra.put "angle" (.float a.angle)).put "positionSide" (.float a.side))
    |> putSome "turret" .int a.turret

def toJson (a : Armament) : Json := .object a.members

end Armament

def Sensor.toJson (s : Sensor) : Json := .object (putSome "range" .float s.range s.extra)

namespace Template

def isWeapon (t : Template) : Bool := t.kind = some "weapon"

def attributeMembers (t : Template) : Entries Json :=
  t.extra
    |> putSome "type" .string t.kind
    |> putSome "subtype" .string t.subtype
    |> putSome "length" .float t.length
    |> putSome "range" .float t.range
    |> putSome "damage" .float t.damage

def members (t : Template) : Entries Json :=
  ((t.attributeMembers.put "turrets" (.array (t.turrets.map Turret.toJson))).put
    "armaments" (.array (t.armaments.map Armament.toJson))).put
    "sensors" (.array (t.sensors.map Sensor.toJson))

def toJson (t : Template) : Json := .object t.members

end Template

namespace Table

def toJson (table : Table) : Json := .object (table.mapValues fun _ t => t.toJson)

def weapons (table : Table) : List Text :=
  Entries.keys (table.filter fun entry => entry.2.isWeapon)

end Table
end EntityTable
