import EntityTable.Authored
import EntityTable.Template

/-!
From authored mounts to resolved ones: degrees become radians, and a symmetrical mount is followed
by its copy on the opposite side of the hull.
-/

namespace EntityTable

def degreesToRadians (angle : Binary64) : Binary64 := angle * Binary64.pi / 180

/-- The opposite of a number, where zero of either sign gives plain zero. -/
def Binary64.opposite (x : Binary64) : Binary64 := if x.eq 0 then 0 else -x

def Turret.mirror (t : Turret) : Turret :=
  { t with angle := t.angle.opposite, side := t.side.opposite }

def Armament.mirror (a : Armament) : Armament :=
  { a with angle := a.angle.opposite, side := a.side.opposite }

def sensorRangeCeiling : Binary64 := 2000

namespace Authored

def Turret.expand (t : Turret) : List EntityTable.Turret :=
  let mounted : EntityTable.Turret := ⟨degreesToRadians t.angle, t.side, t.reference, t.extra⟩
  if t.symmetrical then [mounted, mounted.mirror] else [mounted]

def Armament.expand (a : Armament) : List EntityTable.Armament :=
  let mounted : EntityTable.Armament := ⟨degreesToRadians a.angle, a.side, none, a.extra⟩
  if a.symmetrical then [mounted, mounted.mirror] else [mounted]

def Sensor.limit (s : Sensor) : EntityTable.Sensor :=
  ⟨s.range.map (·.min sensorRangeCeiling), s.extra⟩

end Authored
end EntityTable
