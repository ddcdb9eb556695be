import EntityTable.Json

/-!
Entity templates as they are written by hand: angles in degrees, mirrored pairs in short, and
attributes that may still need deriving.
-/

namespace EntityTable.Authored

structure Turret where
  angle : Binary64
  side : Binary64
  symmetrical : Bool
  reference : Option Text
  extra : Entries Json

structure Armament where
  angle : Binary64
  side : Binary64
  symmetrical : Bool
  extra : Entries Json

structure Sensor where
  range : Option Binary64
  extra : Entries Json

structure Template where
  kind : Option Text
  subtype : Option Text
  length : Option Binary64
  range : Option Binary64
  damage : Option Binary64
  turrets : List Turret
  armaments : List Armament
  sensors : List Sensor
  extra : Entries Json

abbrev Table := Entries Template

def Template.isWeapon (t : Template) : Bool := t.kind = some "weapon"

end EntityTable.Authored
