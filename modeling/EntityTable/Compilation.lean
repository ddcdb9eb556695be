import EntityTable.Attributes
import EntityTable.Authored.Reader
import EntityTable.Inheritance
import EntityTable.Mount

/-!
From an authored table to the artifact: every template on its own first, then the armaments that
turrets inherit.
-/

namespace EntityTable

namespace Authored

/-- The template without the armaments it will inherit. -/
def Template.compile (owner : Text) (t : Template) : Logged Failure EntityTable.Template := do
  let range ← t.deriveRange owner
  let damage ← t.deriveDamage owner
  return {
    kind := t.kind
    subtype := t.subtype
    length := t.length
    range
    damage
    turrets := t.turrets.flatMap Turret.expand
    armaments := t.armaments.flatMap Armament.expand
    sensors := t.sensors.map Sensor.limit
    extra := t.extra }

namespace Table

def compileEach (table : Table) : Logged Failure EntityTable.Table :=
  table.mapM fun (key, template) => do
    Logged.write (.normalizing key)
    return (key, ← template.compile key)

def compile (table : Table) : Logged Failure EntityTable.Table := do
  let resolved ← (← table.compileEach).attachInherited
  Logged.write (.compiled resolved.length)
  return resolved

end Table
end Authored

/-- Compiles decoded input to the decoded artifact. -/
def compile (input : Json) : Logged Failure Json := do
  let table ← Authored.Table.ofJson input
  return (← table.compile).toJson

end EntityTable
