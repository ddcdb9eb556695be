import EntityTable.Compilation
import EntityTable.Proofs.Curve
import EntityTable.Proofs.Outcome

/-!
When a range or a damage cannot be derived: a weapon whose subtype has a curve over the length, and
no length. What can be derived is finite, and is derived again from a template that has it.
-/

namespace EntityTable

namespace WeaponSubtype

theorem ofName?_eq_some_iff {name : Text} {subtype : WeaponSubtype} :
    ofName? name = some subtype ↔ name = subtype.name := by
  constructor
  · intro h
    simpa [eq_comm] using List.find?_some h
  · intro h
    subst h
    cases subtype <;> decide

/-- The subtypes whose damage grows with the length. -/
theorem exists_damageRule_curve_iff {subtype : WeaponSubtype} :
    (∃ curve, subtype.damageRule = .curve curve) ↔
      subtype ∈ [torpedo, rocket, missile, shell] := by
  cases subtype <;> simp [damageRule]

theorem damageRule_ne_unset_iff {subtype : WeaponSubtype} :
    subtype.damageRule ≠ .unset ↔ subtype ∈ [torpedo, rocket, missile, shell, depthCharge] := by
  cases subtype <;> simp [damageRule]

theorem damageRule_eq_constant_iff {subtype : WeaponSubtype} {x : Binary64} :
    subtype.damageRule = .constant x ↔ subtype = depthCharge ∧ x = 1 := by
  cases subtype <;> simp [damageRule, eq_comm]

end WeaponSubtype

namespace Authored.Template

variable {owner : Text} {t : Template} {failure : Failure}

theorem weaponSubtype?_eq_some_iff {subtype : WeaponSubtype} :
    t.weaponSubtype? = some subtype ↔
      t.kind = some "weapon" ∧ t.subtype = some subtype.name := by
  by_cases hkind : t.kind = some "weapon" <;>
    simp [weaponSubtype?, isWeapon, hkind, Option.bind_eq_some_iff,
      WeaponSubtype.ofName?_eq_some_iff]

theorem requireLength_eq_ok_iff {derived : DerivedAttribute} {subtype : WeaponSubtype}
    {length : Binary64} :
    t.requireLength owner derived subtype = .ok length ↔ t.length = some length := by
  unfold requireLength
  cases t.length <;> simp

theorem requireLength_eq_error_iff {derived : DerivedAttribute} {subtype : WeaponSubtype} :
    t.requireLength owner derived subtype = .error failure ↔
      t.length = none ∧ failure = .lengthMissing owner derived subtype := by
  unfold requireLength
  cases t.length <;> simp [eq_comm]

theorem rangeCeiling_eq_error_iff :
    t.rangeCeiling owner = .error failure ↔ ∃ subtype, t.weaponSubtype? = some subtype ∧
      subtype.ceilingCurve?.isSome ∧ t.length = none ∧
        failure = .lengthMissing owner .range subtype := by
  unfold rangeCeiling
  cases t.weaponSubtype? with
  | none => simp
  | some subtype =>
    cases hcurve : subtype.ceilingCurve? with
    | none => simp [hcurve]
    | some curve => simp [hcurve, map_eq_error_iff, requireLength_eq_error_iff]

theorem deriveRange_eq_error_iff :
    t.deriveRange owner = .error failure ↔ t.range ≠ none ∧
      ∃ subtype, t.weaponSubtype? = some subtype ∧ subtype.ceilingCurve?.isSome ∧
        t.length = none ∧ failure = .lengthMissing owner .range subtype := by
  unfold deriveRange
  cases t.range with
  | none => simp
  | some range => simp [map_eq_error_iff, rangeCeiling_eq_error_iff]

theorem deriveDamage_eq_error_iff :
    (t.deriveDamage owner).outcome = .error failure ↔ t.damage = none ∧
      ∃ subtype, t.weaponSubtype? = some subtype ∧
        (∃ curve, subtype.damageRule = .curve curve) ∧ t.length = none ∧
          failure = .lengthMissing owner .damage subtype := by
  unfold deriveDamage
  by_cases hgiven : t.damage.isSome
  · simp [hgiven, Option.isSome_iff_ne_none.mp hgiven]
  have hnone : t.damage = none := by simpa using hgiven
  by_cases hweapon : t.isWeapon
  · cases hsubtype : t.weaponSubtype? with
    | none => simp [hnone, hweapon, map_eq_error_iff]
    | some subtype =>
      cases hrule : subtype.damageRule <;>
        simp [hnone, hweapon, hrule, map_eq_error_iff, requireLength_eq_error_iff]
  · have hsubtype : t.weaponSubtype? = none := by simp [weaponSubtype?, hweapon]
    simp [hnone, hweapon, hsubtype]

/-- The range is derived before the damage. -/
theorem outcome_compile : (t.compile owner).outcome =
    t.deriveRange owner >>= fun range => (t.deriveDamage owner).outcome.map fun damage =>
      ⟨t.kind, t.subtype, t.length, range, damage, t.turrets.flatMap Turret.expand,
        t.armaments.flatMap Armament.expand, t.sensors.map Sensor.limit, t.extra⟩ := by
  simp only [compile, Logged.outcome_bind]
  rfl

theorem compile_eq_error_iff :
    (t.compile owner).outcome = .error failure ↔ t.deriveRange owner = .error failure ∨
      (∃ range, t.deriveRange owner = .ok range) ∧
        (t.deriveDamage owner).outcome = .error failure := by
  rw [outcome_compile, bind_eq_error_iff]
  simp [map_eq_error_iff]

/-! ### Derived once and for all -/

section Rederivation

variable {t' : Template} (hkind : t'.kind = t.kind) (hsubtype : t'.subtype = t.subtype)
  (hlength : t'.length = t.length)
include hkind hsubtype

theorem weaponSubtype?_congr : t'.weaponSubtype? = t.weaponSubtype? := by
  rw [weaponSubtype?, weaponSubtype?, isWeapon, isWeapon, hkind, hsubtype]

include hlength

theorem rangeCeiling_congr : t'.rangeCeiling owner = t.rangeCeiling owner := by
  simp only [rangeCeiling, requireLength, weaponSubtype?_congr hkind hsubtype, hlength]

/-- A range below the ceiling stays. -/
theorem deriveRange_again (h : t.deriveRange owner = .ok t'.range) :
    t'.deriveRange owner = .ok t'.range := by
  unfold deriveRange at h
  cases hr : t.range with
  | none =>
    rw [hr] at h
    rw [deriveRange, ← Except.ok.inj h]
  | some range =>
    rw [hr] at h
    obtain ⟨ceiling, hc, hmin⟩ := map_eq_ok_iff.mp h
    rw [deriveRange, ← hmin, rangeCeiling_congr hkind hsubtype hlength, hc]
    show Except.ok (some ((range.min ceiling).min ceiling)) = _
    rw [Binary64.min_min]

/-- Damage that is there stays, and where none could be derived, none can be. -/
theorem deriveDamage_again (h : (t.deriveDamage owner).outcome = .ok t'.damage) :
    (t'.deriveDamage owner).outcome = .ok t'.damage := by
  cases hd : t'.damage with
  | some x => simp [deriveDamage, hd]
  | none =>
    have hnone : t.damage = none := by
      by_contra hgiven
      simp [deriveDamage, Option.isSome_iff_ne_none.mpr hgiven, hd, hgiven] at h
    have hsame : t'.deriveDamage owner = t.deriveDamage owner := by
      simp only [deriveDamage, requireLength, isWeapon, weaponSubtype?_congr hkind hsubtype, hd,
        hnone, hkind, hsubtype, hlength]
    rw [hsame, h, hd]

end Rederivation

/-! ### Derived values -/

/-- The curve of the range ceiling, if it is not the same at every length. -/
def ceilingCurve? (t : Template) : Option Curve := t.weaponSubtype?.bind (·.ceilingCurve?)

/-- How the template gets a damage if none is authored. -/
def damageRule (t : Template) : DamageRule :=
  match t.weaponSubtype? with
  | none => .unset
  | some subtype => subtype.damageRule

theorem rangeCeiling_eq_ok_iff {ceiling : Binary64} :
    t.rangeCeiling owner = .ok ceiling ↔
      t.ceilingCurve? = none ∧ ceiling = defaultRangeCeiling ∨
        ∃ curve length, t.ceilingCurve? = some curve ∧ t.length = some length ∧
          ceiling = curve.at length := by
  unfold rangeCeiling ceilingCurve?
  cases t.weaponSubtype? with
  | none => simp [eq_comm (a := ceiling)]
  | some subtype =>
    cases hcurve : subtype.ceilingCurve? with
    | none => simp [hcurve, eq_comm (a := ceiling)]
    | some curve => simp [hcurve, map_eq_ok_iff, requireLength_eq_ok_iff, eq_comm (a := ceiling)]

/-- Damage that is not authored follows the rule. -/
theorem deriveDamage_eq_ok_iff (h : t.damage = none) {damage : Option Binary64} :
    (t.deriveDamage owner).outcome = .ok damage ↔
      t.damageRule = .unset ∧ damage = none ∨
      (∃ x, t.damageRule = .constant x ∧ damage = some x) ∨
      ∃ curve length, t.damageRule = .curve curve ∧ t.length = some length ∧
        damage = some (curve.at length) := by
  unfold deriveDamage damageRule
  by_cases hweapon : t.isWeapon
  · cases hsubtype : t.weaponSubtype? with
    | none => simp [h, hweapon, map_eq_ok_iff, eq_comm (a := damage)]
    | some subtype =>
      cases hrule : subtype.damageRule <;>
        simp [h, hweapon, hrule, map_eq_ok_iff, requireLength_eq_ok_iff, eq_comm (a := damage)]
  · have hsubtype : t.weaponSubtype? = none := by simp [weaponSubtype?, hweapon]
    simp [h, hweapon, hsubtype, eq_comm (a := damage)]

theorem deriveDamage_of_authored {x : Binary64} (h : t.damage = some x) :
    (t.deriveDamage owner).outcome = .ok (some x) := by
  simp [deriveDamage, h]

theorem rising_of_ceilingCurve? {curve : Curve} (h : t.ceilingCurve? = some curve) :
    curve.Rising := by
  obtain ⟨subtype, -, hcurve⟩ := Option.bind_eq_some_iff.mp h
  exact WeaponSubtype.rising_of_ceilingCurve? hcurve

theorem damageRule_of_weaponSubtype {subtype : WeaponSubtype}
    (h : t.weaponSubtype? = some subtype) : t.damageRule = subtype.damageRule := by
  rw [damageRule, h]

theorem exists_weaponSubtype_of_damageRule {rule : DamageRule} (h : t.damageRule = rule)
    (hne : rule ≠ .unset) :
    ∃ subtype, t.weaponSubtype? = some subtype ∧ subtype.damageRule = rule := by
  unfold damageRule at h
  split at h
  · exact absurd h.symm hne
  · next subtype hs => exact ⟨subtype, hs, h⟩

theorem rising_of_damageRule {curve : Curve} (h : t.damageRule = .curve curve) :
    curve.Rising := by
  obtain ⟨subtype, -, hrule⟩ := exists_weaponSubtype_of_damageRule h nofun
  exact WeaponSubtype.rising_of_damageRule hrule

section Values

variable (hlength : ∀ x ∈ t.length, x.isFinite = true)
include hlength

theorem isFinite_of_rangeCeiling {ceiling : Binary64} (h : t.rangeCeiling owner = .ok ceiling) :
    ceiling.isFinite = true := by
  rcases rangeCeiling_eq_ok_iff.mp h with ⟨-, rfl⟩ | ⟨curve, length, hcurve, hl, rfl⟩
  · decide +kernel
  · exact (rising_of_ceilingCurve? hcurve).at_isFinite (hlength length hl)

theorem isFinite_of_deriveRange (hrange : ∀ x ∈ t.range, x.isFinite = true)
    {range : Option Binary64} (h : t.deriveRange owner = .ok range) :
    ∀ x ∈ range, x.isFinite = true := by
  unfold deriveRange at h
  cases hr : t.range with
  | none =>
    rw [hr] at h
    obtain rfl := Except.ok.inj h
    simp
  | some authored =>
    rw [hr] at h
    obtain ⟨ceiling, hc, rfl⟩ := map_eq_ok_iff.mp h
    rintro x ⟨⟩
    exact Binary64.min_isFinite (hrange authored hr) (isFinite_of_rangeCeiling hlength hc)

theorem isFinite_of_deriveDamage (hdamage : ∀ x ∈ t.damage, x.isFinite = true)
    {damage : Option Binary64} (h : (t.deriveDamage owner).outcome = .ok damage) :
    ∀ x ∈ damage, x.isFinite = true := by
  cases hd : t.damage with
  | some authored =>
    rw [deriveDamage_of_authored hd] at h
    obtain rfl := Except.ok.inj h
    rintro x ⟨⟩
    exact hdamage authored hd
  | none =>
    rcases (deriveDamage_eq_ok_iff hd).mp h with
      ⟨-, rfl⟩ | ⟨x, hrule, rfl⟩ | ⟨curve, length, hrule, hl, rfl⟩
    · simp
    · rintro y ⟨⟩
      obtain ⟨subtype, -, hs⟩ := exists_weaponSubtype_of_damageRule hrule nofun
      exact WeaponSubtype.isFinite_of_damageRule hs
    · rintro y ⟨⟩
      exact (rising_of_damageRule hrule).at_isFinite (hlength length hl)

end Values

end Authored.Template
end EntityTable
