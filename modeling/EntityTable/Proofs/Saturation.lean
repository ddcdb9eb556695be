import EntityTable.Proofs.Attributes

/-!
Ceilings and damages over the length of a weapon. They never fall as the length grows, and are the
bounds of their curve exactly, not nearly, at every length outside its knots.
-/

namespace EntityTable

open Binary64

/-- Finite numbers in order. -/
def Binary64.AtMost (x y : Binary64) : Prop :=
  x.isFinite = true ∧ y.isFinite = true ∧ x.le y = true

instance (x y : Binary64) : Decidable (x.AtMost y) := inferInstanceAs (Decidable (_ ∧ _ ∧ _))

/-- The lesser of two numbers rises with both. -/
theorem Binary64.AtMost.min {x y c d : Binary64} (hx : x.AtMost y) (hc : c.AtMost d) :
    (x.min c).AtMost (y.min d) := by
  obtain ⟨hxf, hyf, hxy⟩ := hx
  obtain ⟨hcf, hdf, hcd⟩ := hc
  have hleft : (x.min c).le y = true := le_trans (min_le_left (isNaN_of_isFinite hxf)) hxy
  have hright : (x.min c).le d = true :=
    le_trans (min_le_right (isNaN_of_isFinite hxf) (isNaN_of_isFinite hcf)) hcd
  exact ⟨min_isFinite hxf hcf, min_isFinite hyf hdf, le_min hleft hright⟩

/-- Values over the finite numbers that never fall, and that are the bounds of a curve up to its
lower knot and from its upper one on. -/
structure Curve.Saturates (curve : Curve) (value : Binary64 → Binary64) : Prop where
  mono : ∀ a b : Binary64, a.AtMost b → (value a).AtMost (value b)
  low : ∀ a : Binary64, a.AtMost curve.inLow → value a = curve.outLow
  high : ∀ a : Binary64, curve.inHigh.AtMost a → value a = curve.outHigh

theorem Curve.Rising.saturates {curve : Curve} (h : curve.Rising) : curve.Saturates curve.at where
  mono _ _ := fun ⟨ha, hb, hab⟩ => ⟨h.at_isFinite ha, h.at_isFinite hb, h.at_mono hab⟩
  low _ := fun ⟨ha, _, hle⟩ => h.at_of_le_inLow ha hle
  high _ := fun ⟨_, ha, hle⟩ => h.at_of_inHigh_le ha hle

theorem exists_of_rel {α β : Type} {R : α → β → Prop} {x : Option α} {y : Option β}
    (h : Option.Rel R x y) {a : α} (ha : x = some a) : ∃ b, y = some b ∧ R a b := by
  subst ha
  cases h with
  | some hab => exact ⟨_, rfl, hab⟩

theorem eq_none_of_rel {α β : Type} {R : α → β → Prop} {x : Option α} {y : Option β}
    (h : Option.Rel R x y) (hx : x = none) : y = none := by
  subst hx
  cases h
  rfl

namespace WeaponSubtype

/-- The subtypes whose range ceiling depends on the length. -/
def ceilings : List (WeaponSubtype × Curve) :=
  [(.shell, ⟨0.2, 2, 250, 800⟩), (.rocket, ⟨1, 10, 400, 1500⟩), (.missile, ⟨1, 10, 400, 1500⟩)]

/-- The subtypes whose damage depends on the length. -/
def damages : List (WeaponSubtype × Curve) :=
  [(.torpedo, ⟨3, 7, 0.6, 1.1⟩), (.rocket, ⟨1, 6, 0.15, 0.9⟩), (.missile, ⟨1, 6, 0.15, 0.9⟩),
    (.shell, ⟨0.25, 2, 0.3, 0.8⟩)]

variable {subtype : WeaponSubtype} {curve : Curve}

theorem ceilingCurve?_eq_some_iff :
    subtype.ceilingCurve? = some curve ↔ (subtype, curve) ∈ ceilings := by
  cases subtype <;> simp [ceilingCurve?, ceilings, defaultRangeCeiling, eq_comm]

theorem damageRule_eq_curve_iff :
    subtype.damageRule = .curve curve ↔ (subtype, curve) ∈ damages := by
  cases subtype <;> simp [damageRule, damages, eq_comm]

end WeaponSubtype

namespace Authored.Template

variable {owner : Text} {t t' : Template} {subtype : WeaponSubtype} {curve : Curve}

section Curves

variable {length : Binary64} (hs : t.weaponSubtype? = some subtype) (hl : t.length = some length)
include hs hl

theorem rangeCeiling_of_curve (hc : subtype.ceilingCurve? = some curve) :
    t.rangeCeiling owner = .ok (curve.at length) := by
  have hcurve : t.ceilingCurve? = some curve := by rw [ceilingCurve?, hs, Option.bind_some, hc]
  exact rangeCeiling_eq_ok_iff.mpr (.inr ⟨curve, length, hcurve, hl, rfl⟩)

theorem deriveDamage_of_curve (hc : subtype.damageRule = .curve curve) (hd : t.damage = none) :
    (t.deriveDamage owner).outcome = .ok (some (curve.at length)) := by
  have hrule : t.damageRule = .curve curve := (damageRule_of_weaponSubtype hs).trans hc
  exact (deriveDamage_eq_ok_iff hd).mpr (.inr (.inr ⟨curve, length, hrule, hl, rfl⟩))

end Curves

/-- A weapon without authored damage gets one exactly if its subtype is one of these. -/
theorem damage_ne_none_iff (h : t.damage = none) {damage : Option Binary64}
    (hd : (t.deriveDamage owner).outcome = .ok damage) : damage ≠ none ↔
      ∃ subtype ∈ [WeaponSubtype.torpedo, .rocket, .missile, .shell, .depthCharge],
        t.weaponSubtype? = some subtype := by
  have hrule : damage ≠ none ↔ t.damageRule ≠ .unset := by
    rcases (deriveDamage_eq_ok_iff h).mp hd with
      ⟨hrule, rfl⟩ | ⟨x, hrule, rfl⟩ | ⟨curve, length, hrule, -, rfl⟩ <;> simp [hrule]
  rw [hrule]
  constructor
  · intro hne
    obtain ⟨subtype, hs, hrule⟩ := exists_weaponSubtype_of_damageRule rfl hne
    exact ⟨subtype, WeaponSubtype.damageRule_ne_unset_iff.mp (hrule ▸ hne), hs⟩
  · rintro ⟨subtype, hlisted, hs⟩
    rw [damageRule_of_weaponSubtype hs]
    exact WeaponSubtype.damageRule_ne_unset_iff.mpr hlisted

/-- It is constant, or the value of the curve at its length, between the bounds. -/
theorem derived_damage (hlength : ∀ x ∈ t.length, x.isFinite = true) (h : t.damage = none)
    {x : Binary64} (hd : (t.deriveDamage owner).outcome = .ok (some x)) :
    ∃ subtype, t.weaponSubtype? = some subtype ∧ (subtype = .depthCharge ∧ x = 1 ∨
      ∃ curve length, (subtype, curve) ∈ WeaponSubtype.damages ∧ t.length = some length ∧
        x = curve.at length ∧ x.isFinite = true ∧ curve.outLow.le x = true ∧
        x.le curve.outHigh = true) := by
  rcases (deriveDamage_eq_ok_iff h).mp hd with
    ⟨-, hx⟩ | ⟨y, hrule, hx⟩ | ⟨curve, length, hrule, hl, hx⟩
  · cases hx
  · obtain rfl := Option.some.inj hx
    obtain ⟨subtype, hs, heq⟩ := exists_weaponSubtype_of_damageRule hrule nofun
    exact ⟨subtype, hs, .inl (WeaponSubtype.damageRule_eq_constant_iff.mp heq)⟩
  · obtain rfl := Option.some.inj hx
    obtain ⟨subtype, hs, heq⟩ := exists_weaponSubtype_of_damageRule hrule nofun
    have hrising := rising_of_damageRule hrule
    have hfinite := hlength length hl
    exact ⟨subtype, hs, .inr ⟨curve, length, WeaponSubtype.damageRule_eq_curve_iff.mp heq, hl, rfl,
      hrising.at_isFinite hfinite, hrising.outLow_le_at hfinite, hrising.at_le_outHigh hfinite⟩⟩

/-- The same kind of template, with a range and a length that are no smaller. -/
structure AtMost (t t' : Template) : Prop where
  kind : t'.kind = t.kind
  subtype : t'.subtype = t.subtype
  length : Option.Rel Binary64.AtMost t.length t'.length
  range : Option.Rel Binary64.AtMost t.range t'.range

theorem rangeCeiling_mono (h : t.AtMost t') {ceiling : Binary64}
    (hc : t.rangeCeiling owner = .ok ceiling) :
    ∃ ceiling', t'.rangeCeiling owner = .ok ceiling' ∧ ceiling.AtMost ceiling' := by
  have hcurve' : t'.ceilingCurve? = t.ceilingCurve? := by
    rw [ceilingCurve?, weaponSubtype?_congr h.kind h.subtype, ceilingCurve?]
  rcases rangeCeiling_eq_ok_iff.mp hc with ⟨hnone, rfl⟩ | ⟨curve, length, hcurve, hl, rfl⟩
  · have hceiling : t'.rangeCeiling owner = .ok defaultRangeCeiling :=
      rangeCeiling_eq_ok_iff.mpr (.inl ⟨hcurve'.trans hnone, rfl⟩)
    exact ⟨defaultRangeCeiling, hceiling, by decide +kernel⟩
  · obtain ⟨length', hl', hle⟩ := exists_of_rel h.length hl
    have hceiling : t'.rangeCeiling owner = .ok (curve.at length') :=
      rangeCeiling_eq_ok_iff.mpr (.inr ⟨curve, length', hcurve'.trans hcurve, hl', rfl⟩)
    exact ⟨curve.at length', hceiling, (rising_of_ceilingCurve? hcurve).saturates.mono _ _ hle⟩

theorem deriveRange_mono (h : t.AtMost t') {range : Option Binary64}
    (hr : t.deriveRange owner = .ok range) :
    ∃ range', t'.deriveRange owner = .ok range' ∧ Option.Rel Binary64.AtMost range range' := by
  cases ha : t.range with
  | none =>
    rw [deriveRange, ha] at hr
    obtain rfl := Except.ok.inj hr
    exact ⟨none, by rw [deriveRange, eq_none_of_rel h.range ha], .none⟩
  | some authored =>
    obtain ⟨authored', ha', hle⟩ := exists_of_rel h.range ha
    rw [deriveRange, ha] at hr
    obtain ⟨ceiling, hc, rfl⟩ := map_eq_ok_iff.mp hr
    obtain ⟨ceiling', hc', hceiling⟩ := rangeCeiling_mono h hc
    refine ⟨some (authored'.min ceiling'), ?_, .some (hle.min hceiling)⟩
    rw [deriveRange, ha']
    exact map_eq_ok_iff.mpr ⟨ceiling', hc', rfl⟩

theorem deriveRange_fails_alike (h : t.AtMost t') {failure : Failure}
    (hf : t.deriveRange owner = .error failure) : t'.deriveRange owner = .error failure := by
  obtain ⟨hrange, subtype, hs, hcurve, hlength, rfl⟩ := deriveRange_eq_error_iff.mp hf
  have hrange' : t'.range ≠ none := by
    obtain ⟨range, hr⟩ := Option.ne_none_iff_exists'.mp hrange
    obtain ⟨range', hr', -⟩ := exists_of_rel h.range hr
    simp [hr']
  have hs' := (weaponSubtype?_congr h.kind h.subtype).trans hs
  exact deriveRange_eq_error_iff.mpr
    ⟨hrange', subtype, hs', hcurve, eq_none_of_rel h.length hlength, rfl⟩

open WeaponSubtype (ceilings damages)

/-- The subtypes with a curve are the listed ones. Their values follow it and, outside its knots,
are its bounds; a range is derived from them in keeping with the authored one and the length. -/
theorem derivation_saturates :
    ((∀ subtype curve, subtype.ceilingCurve? = some curve ↔ (subtype, curve) ∈ ceilings) ∧
      ∀ subtype curve, (subtype, curve) ∈ ceilings → ∃ value, curve.Saturates value ∧
        ∀ (owner : Text) (t : Template) length, t.kind = some ("weapon" : Text) →
          t.subtype = some subtype.name → t.length = some length →
          t.rangeCeiling owner = .ok (value length)) ∧
    ((∀ subtype curve, subtype.damageRule = .curve curve ↔ (subtype, curve) ∈ damages) ∧
      ∀ subtype curve, (subtype, curve) ∈ damages → ∃ value, curve.Saturates value ∧
        ∀ (owner : Text) (t : Template) length, t.kind = some ("weapon" : Text) →
          t.subtype = some subtype.name → t.length = some length → t.damage = none →
          (t.deriveDamage owner).outcome = .ok (some (value length))) ∧
    ∀ (owner : Text) (t t' : Template), t.AtMost t' →
      (∀ range, t.deriveRange owner = .ok range → ∃ range',
        t'.deriveRange owner = .ok range' ∧ Option.Rel Binary64.AtMost range range') ∧
      ∀ failure, t.deriveRange owner = .error failure → t'.deriveRange owner = .error failure := by
  refine ⟨⟨fun _ _ => WeaponSubtype.ceilingCurve?_eq_some_iff, ?_⟩,
    ⟨fun _ _ => WeaponSubtype.damageRule_eq_curve_iff, ?_⟩, ?_⟩
  · intro subtype curve hlisted
    have hcurve := WeaponSubtype.ceilingCurve?_eq_some_iff.mpr hlisted
    refine ⟨curve.at, (WeaponSubtype.rising_of_ceilingCurve? hcurve).saturates, ?_⟩
    intro owner t length hkind hsubtype hlength
    exact rangeCeiling_of_curve (weaponSubtype?_eq_some_iff.mpr ⟨hkind, hsubtype⟩) hlength hcurve
  · intro subtype curve hlisted
    have hrule := WeaponSubtype.damageRule_eq_curve_iff.mpr hlisted
    refine ⟨curve.at, (WeaponSubtype.rising_of_damageRule hrule).saturates, ?_⟩
    intro owner t length hkind hsubtype hlength hdamage
    exact deriveDamage_of_curve (weaponSubtype?_eq_some_iff.mpr ⟨hkind, hsubtype⟩) hlength hrule
      hdamage
  · intro owner t t' h
    exact ⟨fun range => deriveRange_mono h, fun failure => deriveRange_fails_alike h⟩

/-- A shell that is to reach farther than shells of most lengths do. -/
def mortar (range length : Binary64) : Template :=
  ⟨some ("weapon" : Text), some ("shell" : Text), some length, some range, none, [], [], [], []⟩

theorem mortar_atMost {range range' length length' : Binary64} (hr : range.AtMost range')
    (hl : length.AtMost length') : (mortar range length).AtMost (mortar range' length') :=
  ⟨rfl, rfl, .some hl, .some hr⟩

/-- The least and the greatest of all lengths have the bounds, and in between the range rises. -/
theorem derivation_saturates_mortar :
    (mortar 700 5e-324).rangeCeiling "mortar" = .ok 250 ∧
    ((mortar 700 1.7976931348623157e308).deriveDamage "mortar").outcome = .ok (some 0.8) ∧
    ∃ range range', (mortar 600 1.1).deriveRange "mortar" = .ok (some range) ∧
      (mortar 700 1.3).deriveRange "mortar" = .ok range' ∧
      Option.Rel Binary64.AtMost (some range) range' := by
  obtain ⟨⟨-, hceilings⟩, ⟨-, hdamages⟩, hranges⟩ := derivation_saturates
  refine ⟨?_, ?_, ?_⟩
  · obtain ⟨value, hvalue, hceiling⟩ := hceilings .shell ⟨0.2, 2, 250, 800⟩ (by simp [ceilings])
    have hlow : value 5e-324 = 250 := hvalue.low 5e-324 (by decide +kernel)
    exact (hceiling "mortar" (mortar 700 5e-324) 5e-324 rfl rfl rfl).trans (by rw [hlow])
  · obtain ⟨value, hvalue, hdamage⟩ := hdamages .shell ⟨0.25, 2, 0.3, 0.8⟩ (by simp [damages])
    have hhigh : value 1.7976931348623157e308 = 0.8 := hvalue.high _ (by decide +kernel)
    exact (hdamage "mortar" (mortar 700 1.7976931348623157e308) _ rfl rfl rfl rfl).trans
      (by rw [hhigh])
  · have hrises : (mortar 600 1.1).AtMost (mortar 700 1.3) :=
      mortar_atMost (by decide +kernel) (by decide +kernel)
    obtain ⟨range', hr', hle⟩ := (hranges "mortar" _ _ hrises).1 _ rfl
    exact ⟨_, range', rfl, hr', hle⟩

end Authored.Template
end EntityTable
