import EntityTable.Attributes
import EntityTable.Binary64.Decimal

/-!
Tables of the range and damage curves, sampled over the lengths that weapons of a subtype have.
-/

namespace EntityTable

inductive CurveFault
  | unknownSubtype (name : Text)
  | noDomain (subtype : WeaponSubtype)
  | negativeSamples (count : Int)
  | underived (cause : Failure)
  | noDamage

structure CurveRow where
  length : Binary64
  rangeCeiling : Binary64
  damage : Binary64

namespace CurveReport

/-- The subtypes of the report in its order, with their shortest and longest lengths. -/
def domains : List (WeaponSubtype × Binary64 × Binary64) :=
  [(.shell, 0.1, 2.5), (.rocket, 0.5, 11), (.missile, 0.5, 11), (.torpedo, 2, 8),
    (.depthCharge, 0.5, 1.5)]

/-- Evenly spaced lengths from `low` on. The last of several is `high` itself, whatever the steps
add up to. -/
def sampleLengths (low high : Binary64) (count : Nat) : List Binary64 :=
  if count = 1 then [low]
  else
    let step := (high - low) / Binary64.ofInt (count - 1 : Nat)
    (List.range count).map fun i =>
      if i + 1 = count then high else Binary64.ofInt i * step + low

def sampleTemplate (subtype : WeaponSubtype) (length : Binary64) : Authored.Template :=
  { kind := some "weapon"
    subtype := some subtype.name
    length := some length
    range := none
    damage := none
    turrets := []
    armaments := []
    sensors := []
    extra := [] }

/-- Lengths and damages are shown to three places, ceilings to one. -/
def row (subtype : WeaponSubtype) (length : Binary64) : Except CurveFault CurveRow := do
  let owner := Text.concat ["sample_", subtype.name]
  let template := sampleTemplate subtype length
  let ceiling ← (template.rangeCeiling owner).mapError .underived
  let damage? ← (template.deriveDamage owner).outcome.mapError .underived
  match damage? with
  | none => throw .noDamage
  | some damage => return ⟨length.roundTo 3, ceiling.roundTo 1, damage.roundTo 3⟩

def rows (subtype : WeaponSubtype) (samples : Int) : Except CurveFault (List CurveRow) := do
  match domains.lookup subtype with
  | none => throw (.noDomain subtype)
  | some (low, high) =>
    if samples < 0 then throw (.negativeSamples samples)
    (sampleLengths low high samples.toNat).mapM (row subtype)

/-- The rows of a subtype given by name. -/
def rowsOf (name : Text) (samples : Int) : Except CurveFault (List CurveRow) :=
  match WeaponSubtype.ofName? name with
  | none => .error (.unknownSubtype name)
  | some subtype => rows subtype samples

def rowLine (r : CurveRow) : Text :=
  Text.concat ["| ", r.length.toText, " | ", r.rangeCeiling.toText, " | ", r.damage.toText, " |"]

def table (subtype : WeaponSubtype) (samples : Int) : Except CurveFault (List Text) := do
  let lines := (← rows subtype samples).map rowLine
  let heading : List Text :=
    [Text.concat ["## ", subtype.name], [], "| Length | Range Ceiling | Damage |",
      "|--------|---------------|--------|"]
  return heading ++ lines ++ [[]]

def title : List Text :=
  ["# Weapon Derivation Curves", [], "Range ceilings and derived damage by weapon length.", []]

/-- A table for every subtype with a domain. -/
def markdown (samples : Int) : Except CurveFault Text := do
  let tables ← domains.mapM fun (subtype, _) => table subtype samples
  return Text.join "\n" (title ++ tables.flatten)

end CurveReport

/-- A subtype is shown with its name in capitals and in quotes. -/
def WeaponSubtype.label : WeaponSubtype → Text
  | .torpedo => "TORPEDO"
  | .rocket => "ROCKET"
  | .rocketTorpedo => "ROCKET_TORPEDO"
  | .missile => "MISSILE"
  | .sam => "SAM"
  | .shell => "SHELL"
  | .depthCharge => "DEPTH_CHARGE"
  | .mine => "MINE"

def CurveFault.message : CurveFault → Text
  | .unknownSubtype name => Text.concat [name.quoted, " is not a valid WeaponSubtype"]
  | .noDomain subtype =>
    Text.concat ["<WeaponSubtype.", subtype.label, ": ", subtype.name.quoted, ">"]
  | .negativeSamples count =>
    Text.concat ["Number of samples, ", Text.ofInt count, ", must be non-negative."]
  | .underived cause => cause.message
  | .noDamage => "type NoneType doesn't define __round__ method"

end EntityTable
