import EntityTable.Authored
import EntityTable.Curve
import EntityTable.Failure
import EntityTable.Logged

/-!
Range and damage of a template. Weapons of some subtypes are limited by a range ceiling over
their length, and get a damage over it where none is authored.
-/

namespace EntityTable

def defaultRangeCeiling : Binary64 := 1500

/-- How a subtype without authored damage gets one. -/
inductive DamageRule
  | curve (c : Curve)
  | constant (x : Binary64)
  | unset

namespace WeaponSubtype

def ceilingCurve? : WeaponSubtype → Option Curve
  | .shell => some ⟨0.2, 2, 250, 800⟩
  | .rocket | .missile => some ⟨1, 10, 400, defaultRangeCeiling⟩
  | _ => none

def damageRule : WeaponSubtype → DamageRule
  | .torpedo => .curve ⟨3, 7, 0.6, 1.1⟩
  | .rocket | .missile => .curve ⟨1, 6, 0.15, 0.9⟩
  | .shell => .curve ⟨0.25, 2, 0.3, 0.8⟩
  | .depthCharge => .constant 1
  | _ => .unset

end WeaponSubtype

namespace Authored.Template

/-- The subtype of a weapon; other kinds of templates have subtypes of their own. -/
def weaponSubtype? (t : Template) : Option WeaponSubtype :=
  if t.isWeapon then t.subtype.bind WeaponSubtype.ofName? else none

def requireLength (owner : Text) (t : Template) (derived : DerivedAttribute)
    (subtype : WeaponSubtype) : Except Failure Binary64 :=
  match t.length with
  | some length => .ok length
  | none => .error (.lengthMissing owner derived subtype)

def rangeCeiling (owner : Text) (t : Template) : Except Failure Binary64 :=
  match t.weaponSubtype? with
  | none => .ok defaultRangeCeiling
  | some subtype =>
    match subtype.ceilingCurve? with
    | none => .ok defaultRangeCeiling
    | some curve => (t.requireLength owner .range subtype).map curve.at

/-- Only an authored range is kept, up to the ceiling. -/
def deriveRange (owner : Text) (t : Template) : Except Failure (Option Binary64) :=
  match t.range with
  | none => .ok none
  | some range => (t.rangeCeiling owner).map fun ceiling => some (range.min ceiling)

/-- Authored damage always wins. A weapon whose subtype has no rule stays without, and the log
says so. -/
def deriveDamage (owner : Text) (t : Template) : Logged Failure (Option Binary64) :=
  if t.damage.isSome || !t.isWeapon then pure t.damage
  else
    let gap : Logged Failure (Option Binary64) := do
      Logged.write (.noDamage owner t.subtype)
      return none
    match t.weaponSubtype? with
    | none => gap
    | some subtype =>
      match subtype.damageRule with
      | .curve curve =>
        .ofExcept ((t.requireLength owner .damage subtype).map fun length => some (curve.at length))
      | .constant x => pure (some x)
      | .unset => gap

end Authored.Template
end EntityTable
