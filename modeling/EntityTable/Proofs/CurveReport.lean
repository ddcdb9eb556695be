import EntityTable.CurveReport
import EntityTable.Proofs.Attributes
import EntityTable.Proofs.Binary64.Spacing
import EntityTable.Proofs.Json.Numbers

/-!
The report shows the curves as they are. Every subtype with a domain has a row for each sample, from
the shortest to the longest length, and no rounding on the way, of the steps, along the curve or to
decimals, turns a column around or takes it past the bounds of its curve.
-/

namespace EntityTable

open Binary64

/-- A value over the length of a weapon: along a curve, or the same at every length. -/
inductive Trend
  | along (curve : Curve)
  | level (value : Binary64)

namespace Trend

variable {trend : Trend} {x y : Binary64}

def valueAt : Trend → Binary64 → Binary64
  | .along curve, length => curve.at length
  | .level value, _ => value

def low : Trend → Binary64
  | .along curve => curve.outLow
  | .level value => value

def high : Trend → Binary64
  | .along curve => curve.outHigh
  | .level value => value

def Sound : Trend → Prop
  | .along curve => curve.Rising
  | .level value => value.isFinite = true

/-- The curve is level again at this length. -/
def EndsBy (length : Binary64) : Trend → Prop
  | .along curve => curve.inHigh.le length = true
  | .level _ => True

instance (length : Binary64) : DecidablePred (EndsBy length)
  | .along curve => inferInstanceAs (Decidable (curve.inHigh.le length = true))
  | .level _ => inferInstanceAs (Decidable True)

theorem Sound.mono (h : trend.Sound) (hxy : x.le y = true) :
    (trend.valueAt x).le (trend.valueAt y) = true := by
  cases trend with
  | along curve => exact Curve.Rising.at_mono h hxy
  | level value => exact le_refl (isNaN_of_isFinite h)

theorem Sound.low_le (h : trend.Sound) (hx : x.isFinite = true) :
    trend.low.le (trend.valueAt x) = true := by
  cases trend with
  | along curve => exact Curve.Rising.outLow_le_at h hx
  | level value => exact le_refl (isNaN_of_isFinite h)

theorem Sound.le_high (h : trend.Sound) (hx : x.isFinite = true) :
    (trend.valueAt x).le trend.high = true := by
  cases trend with
  | along curve => exact Curve.Rising.at_le_outHigh h hx
  | level value => exact le_refl (isNaN_of_isFinite h)

theorem Sound.valueAt_of_endsBy (h : trend.Sound) (hx : x.isFinite = true)
    (hends : trend.EndsBy x) : trend.valueAt x = trend.high := by
  cases trend with
  | along curve => exact Curve.Rising.at_of_inHigh_le h hx hends
  | level value => rfl

end Trend

namespace WeaponSubtype

def ceilingTrend (subtype : WeaponSubtype) : Trend :=
  match subtype.ceilingCurve? with
  | some curve => .along curve
  | none => .level defaultRangeCeiling

/-- Of a subtype that gets a damage. -/
def damageTrend? (subtype : WeaponSubtype) : Option Trend :=
  match subtype.damageRule with
  | .curve curve => some (.along curve)
  | .constant x => some (.level x)
  | .unset => none

theorem sound_ceilingTrend (subtype : WeaponSubtype) : subtype.ceilingTrend.Sound := by
  unfold ceilingTrend
  cases hcurve : subtype.ceilingCurve? with
  | none => exact show defaultRangeCeiling.isFinite = true by decide +kernel
  | some curve => exact rising_of_ceilingCurve? hcurve

theorem damageTrend?_eq_some_iff {subtype : WeaponSubtype} {trend : Trend} :
    subtype.damageTrend? = some trend ↔
      (∃ curve, subtype.damageRule = .curve curve ∧ trend = .along curve) ∨
        ∃ x, subtype.damageRule = .constant x ∧ trend = .level x := by
  unfold damageTrend?
  cases subtype.damageRule <;> simp [eq_comm]

theorem sound_of_damageTrend? {subtype : WeaponSubtype} {trend : Trend}
    (h : subtype.damageTrend? = some trend) : trend.Sound := by
  rcases damageTrend?_eq_some_iff.mp h with ⟨curve, hrule, rfl⟩ | ⟨x, hrule, rfl⟩
  · exact rising_of_damageRule hrule
  · exact isFinite_of_damageRule hrule

end WeaponSubtype

namespace CurveReport

variable {subtype : WeaponSubtype} {damage : Trend} {low high : Binary64}

/-! ### One row -/

section Row

variable (owner : Text) (subtype) (length : Binary64)

theorem weaponSubtype?_sampleTemplate :
    (sampleTemplate subtype length).weaponSubtype? = some subtype :=
  Authored.Template.weaponSubtype?_eq_some_iff.mpr ⟨rfl, rfl⟩

theorem rangeCeiling_sampleTemplate : (sampleTemplate subtype length).rangeCeiling owner =
    .ok (subtype.ceilingTrend.valueAt length) := by
  refine Authored.Template.rangeCeiling_eq_ok_iff.mpr ?_
  rw [Authored.Template.ceilingCurve?, weaponSubtype?_sampleTemplate, Option.bind_some,
    WeaponSubtype.ceilingTrend]
  cases subtype.ceilingCurve? with
  | none => exact .inl ⟨rfl, rfl⟩
  | some curve => exact .inr ⟨curve, length, rfl, rfl, rfl⟩

theorem deriveDamage_sampleTemplate (h : subtype.damageTrend? = some damage) :
    ((sampleTemplate subtype length).deriveDamage owner).outcome =
      .ok (some (damage.valueAt length)) := by
  refine (Authored.Template.deriveDamage_eq_ok_iff rfl).mpr ?_
  rw [Authored.Template.damageRule_of_weaponSubtype (weaponSubtype?_sampleTemplate subtype length)]
  rcases WeaponSubtype.damageTrend?_eq_some_iff.mp h with ⟨curve, hrule, rfl⟩ | ⟨x, hrule, rfl⟩
  · exact .inr (.inr ⟨curve, length, hrule, rfl, rfl⟩)
  · exact .inr (.inl ⟨x, hrule, rfl⟩)

end Row

/-- What a row shows of a length. -/
def shownAt (ceiling damage : Trend) (length : Binary64) : CurveRow :=
  ⟨length.roundTo 3, (ceiling.valueAt length).roundTo 1, (damage.valueAt length).roundTo 3⟩

/-- A subtype that gets a damage has a row for any length. -/
theorem row_eq (h : subtype.damageTrend? = some damage) (length : Binary64) :
    row subtype length = .ok (shownAt subtype.ceilingTrend damage length) := by
  unfold row
  simp only [rangeCeiling_sampleTemplate, deriveDamage_sampleTemplate _ _ _ h]
  rfl

/-! ### The samples -/

/-- A billionth of a unit of length, more than the steps can overshoot. -/
def overshoot : Binary64 := 1e-9

/-- A domain is wide, starts and ends where it is shown to, and its end leaves room for the errors
that its steps add up to. -/
structure Domain (low high : Binary64) : Prop where
  low_isFinite : low.isFinite = true
  high_isFinite : high.isFinite = true
  ascends : low.le high = true
  wide : (high - low).IsWide
  starts : 0 + low = low
  stays : 0 * ((high - low) / infinity false) + low = low
  low_shown : low.roundTo 3 = low
  high_shown : high.roundTo 3 = high
  margin : (high - low + overshoot).IsPositive
  room : (high - low).magnitude * (stepPrecision + 1) ≤
    (high - low + overshoot).magnitude * stepPrecision
  limit_isFinite : (low + (high - low + overshoot)).isFinite = true
  limit_shown : (low + (high - low + overshoot)).roundTo 3 = high

instance (low high : Binary64) : Decidable (Domain low high) :=
  decidable_of_iff (_ ∧ _ ∧ _ ∧ _ ∧ _ ∧ _ ∧ _ ∧ _ ∧ _ ∧ _ ∧ _ ∧ _)
    ⟨fun ⟨a, b, c, d, e, f, g, h, i, j, k, l⟩ => ⟨a, b, c, d, e, f, g, h, i, j, k, l⟩,
      fun ⟨a, b, c, d, e, f, g, h, i, j, k, l⟩ => ⟨a, b, c, d, e, f, g, h, i, j, k, l⟩⟩

/-- Every subtype of the report has one domain, and a damage. The curves are level again at the end
of the domain. -/
theorem domains_sound : ∀ entry ∈ domains, domains.lookup entry.1 = some entry.2 ∧
    Domain entry.2.1 entry.2.2 ∧ entry.1.ceilingTrend.EndsBy entry.2.2 ∧
      ∃ damage ∈ entry.1.damageTrend?, damage.EndsBy entry.2.2 := by
  decide +kernel

def sampleAt (low high : Binary64) (n i : Nat) : Binary64 :=
  if i + 1 = n then high else pointAt low ((high - low) / ofInt (n - 1 : Nat)) i

theorem sampleLengths_eq {n : Nat} (hn : 2 ≤ n) :
    sampleLengths low high n = (List.range n).map (sampleAt low high n) := by
  rw [sampleLengths, if_neg (by omega)]
  rfl

theorem sampleAt_last {n : Nat} (hn : 2 ≤ n) : sampleAt low high n (n - 1) = high :=
  if_pos (by omega)

section Samples

variable {n i j : Nat} (h : Domain low high) (hn : 2 ≤ n)
include h hn

/-- The first length is the low end, even if there are too many steps to tell how wide they are. -/
theorem sampleAt_zero : sampleAt low high n 0 = low := by
  rw [sampleAt, if_neg (by omega)]
  cases hsteps : (ofInt? (n - 1 : Nat)).isSome with
  | true => rw [pointAt_zero (h.wide.div_isPositive (isWide_ofInt (by omega) hsteps)), h.starts]
  | false =>
    rw [pointAt, ofInt_eq_infinity hsteps]
    exact h.stays

variable (hsteps : (ofInt? (n - 1 : Nat)).isSome = true)
include hsteps

theorem step_isPositive : ((high - low) / ofInt (n - 1 : Nat)).IsPositive :=
  h.wide.div_isPositive (isWide_ofInt (by omega) hsteps)

theorem pointAt_le_limit (hi : i < n) :
    (pointAt low ((high - low) / ofInt (n - 1 : Nat)) i).le
      (low + (high - low + overshoot)) = true :=
  pointAt_le h.low_isFinite h.wide (isWide_ofInt (by omega) hsteps) h.margin h.room (by omega)

/-- Lengths go up, except that the last one may lie below where the steps lead. -/
theorem sampleAt_le_sampleAt (hij : i ≤ j) (hj : j < n) :
    (sampleAt low high n i).le (sampleAt low high n j) = true ∨
      sampleAt low high n j = high ∧
        (sampleAt low high n i).le (low + (high - low + overshoot)) = true := by
  by_cases hlast : j + 1 = n
  · by_cases hsame : i + 1 = n
    · rw [sampleAt, sampleAt, if_pos hsame, if_pos hlast]
      exact .inl (le_refl (isNaN_of_isFinite h.high_isFinite))
    · refine .inr ⟨if_pos hlast, ?_⟩
      rw [sampleAt, if_neg hsame]
      exact pointAt_le_limit h hn hsteps (by omega)
  · rw [sampleAt, sampleAt, if_neg hlast, if_neg (by omega)]
    exact .inl (pointAt_le_pointAt h.low_isFinite (step_isPositive h hn hsteps) hij)

theorem isFinite_sampleAt (hi : i < n) : (sampleAt low high n i).isFinite = true := by
  by_cases hlast : i + 1 = n
  · rw [sampleAt, if_pos hlast]
    exact h.high_isFinite
  · have hlow : low.le (sampleAt low high n i) = true := by
      rcases sampleAt_le_sampleAt h hn hsteps (Nat.zero_le i) hi with hle | ⟨heq, -⟩
      · rwa [sampleAt_zero h hn] at hle
      · rw [heq]
        exact h.ascends
    rw [sampleAt, if_neg hlast] at hlow ⊢
    exact isFinite_of_between h.low_isFinite h.limit_isFinite hlow
      (pointAt_le_limit h hn hsteps hi)

end Samples

/-! ### From row to row -/

/-- No column of a row is above that of another. -/
structure NotAbove (a b : CurveRow) : Prop where
  length : a.length.le b.length = true
  rangeCeiling : a.rangeCeiling.le b.rangeCeiling = true
  damage : a.damage.le b.damage = true

/-- Ceiling and damage are between the bounds of their curves, rounded as they are. -/
structure Within (ceiling damage : Trend) (r : CurveRow) : Prop where
  low_le_rangeCeiling : (ceiling.low.roundTo 1).le r.rangeCeiling = true
  rangeCeiling_le_high : r.rangeCeiling.le (ceiling.high.roundTo 1) = true
  low_le_damage : (damage.low.roundTo 3).le r.damage = true
  damage_le_high : r.damage.le (damage.high.roundTo 3) = true

section Rows

variable {ceiling : Trend} (hceiling : ceiling.Sound) (hdamage : damage.Sound)
include hceiling hdamage

theorem within_shownAt {length : Binary64} (hl : length.isFinite = true) :
    Within ceiling damage (shownAt ceiling damage length) where
  low_le_rangeCeiling := roundTo_le_roundTo 1 (hceiling.low_le hl)
  rangeCeiling_le_high := roundTo_le_roundTo 1 (hceiling.le_high hl)
  low_le_damage := roundTo_le_roundTo 3 (hdamage.low_le hl)
  damage_le_high := roundTo_le_roundTo 3 (hdamage.le_high hl)

theorem notAbove_of_le {x y : Binary64} (hxy : x.le y = true) :
    NotAbove (shownAt ceiling damage x) (shownAt ceiling damage y) where
  length := roundTo_le_roundTo 3 hxy
  rangeCeiling := roundTo_le_roundTo 1 (hceiling.mono hxy)
  damage := roundTo_le_roundTo 3 (hdamage.mono hxy)

/-- A length past the end is shown as the end, where the curves are already level. -/
theorem notAbove_end (h : Domain low high) (hcends : ceiling.EndsBy high)
    (hdends : damage.EndsBy high) {x : Binary64} (hx : x.isFinite = true)
    (hlimit : x.le (low + (high - low + overshoot)) = true) :
    NotAbove (shownAt ceiling damage x) (shownAt ceiling damage high) := by
  have hceilingEnd := hceiling.valueAt_of_endsBy h.high_isFinite hcends
  have hdamageEnd := hdamage.valueAt_of_endsBy h.high_isFinite hdends
  have hlength : (x.roundTo 3).le (high.roundTo 3) = true := by
    rw [h.high_shown, ← h.limit_shown]
    exact roundTo_le_roundTo 3 hlimit
  refine ⟨hlength, roundTo_le_roundTo 1 ?_, roundTo_le_roundTo 3 ?_⟩
  · rw [hceilingEnd]
    exact hceiling.le_high hx
  · rw [hdamageEnd]
    exact hdamage.le_high hx

end Rows

/-! ### All rows -/

/-- No column ever goes down, and none leaves the bounds of its curve. -/
structure Steady (ceiling damage : Trend) (shown : List CurveRow) : Prop where
  ordered : shown.Pairwise NotAbove
  within : ∀ r ∈ shown, Within ceiling damage r

/-- As many rows as samples, from one end of the domain to the other, that follow the curves of the
subtype. The samples are steps of the width divided by their number, so for the last of these that
number must have a value. It has one up to the largest finite number. -/
structure Faithful (subtype : WeaponSubtype) (low high : Binary64) (n : Nat)
    (shown : List CurveRow) : Prop where
  count : shown.length = n
  first : shown.head?.map (·.length) = some low
  last : shown.getLast?.map (·.length) = some high
  steady : ∃ damage ∈ subtype.damageTrend?, (ofInt? (n - 1 : Nat)).isSome = true →
    Steady subtype.ceilingTrend damage shown

theorem rows_eq {n : Nat} (hdomain : domains.lookup subtype = some (low, high))
    (hdamage : subtype.damageTrend? = some damage) (hn : 2 ≤ n) :
    rows subtype n = .ok ((List.range n).map fun i =>
      shownAt subtype.ceilingTrend damage (sampleAt low high n i)) := by
  have hcount : ¬(n : Int) < 0 := by omega
  have hrows : (sampleLengths low high n).mapM (row subtype) =
      .ok ((sampleLengths low high n).map (shownAt subtype.ceilingTrend damage)) := by
    rw [mapM_eq_ok_iff, List.forall₂_map_right_iff, List.forall₂_same]
    exact fun length _ => row_eq hdamage length
  rw [sampleLengths_eq hn, List.map_map] at hrows
  simp only [rows, hdomain, if_neg hcount, Int.toNat_natCast, sampleLengths_eq hn]
  exact hrows

theorem steady_shown {ceiling : Trend} {n : Nat} (h : Domain low high) (hn : 2 ≤ n)
    (hceiling : ceiling.Sound) (hdamage : damage.Sound) (hcends : ceiling.EndsBy high)
    (hdends : damage.EndsBy high) (hsteps : (ofInt? (n - 1 : Nat)).isSome = true) :
    Steady ceiling damage
      ((List.range n).map fun i => shownAt ceiling damage (sampleAt low high n i)) where
  ordered := by
    rw [List.pairwise_map]
    refine List.pairwise_lt_range.imp_of_mem fun {i j} _ hj hij => ?_
    have hj := List.mem_range.mp hj
    rcases sampleAt_le_sampleAt h hn hsteps hij.le hj with hle | ⟨hend, hlimit⟩
    · exact notAbove_of_le hceiling hdamage hle
    · rw [hend]
      exact notAbove_end hceiling hdamage h hcends hdends
        (isFinite_sampleAt h hn hsteps (by omega)) hlimit
  within := by
    intro r hr
    obtain ⟨i, hi, rfl⟩ := List.mem_map.mp hr
    exact within_shownAt hceiling hdamage
      (isFinite_sampleAt h hn hsteps (List.mem_range.mp hi))

theorem exists_rows_faithful {n : Nat} (hentry : (subtype, low, high) ∈ domains) (hn : 2 ≤ n) :
    ∃ shown, rows subtype n = .ok shown ∧ Faithful subtype low high n shown := by
  obtain ⟨hlookup, hdomain, hcends, damage, hdamage, hdends⟩ := domains_sound _ hentry
  have hne : n ≠ 0 := by omega
  refine ⟨_, rows_eq hlookup hdamage hn, ?_, ?_, ?_, damage, hdamage, ?_⟩
  · simp
  · simp [List.head?_range, hne, shownAt, sampleAt_zero hdomain hn, hdomain.low_shown]
  · simp [List.getLast?_range, hne, shownAt, sampleAt_last hn, hdomain.high_shown]
  · exact steady_shown hdomain hn subtype.sound_ceilingTrend
      (WeaponSubtype.sound_of_damageTrend? hdamage) hcends hdends

/-! ### The lines of the report -/

/-- Above the rows of all subtypes. -/
def opening : List Text :=
  ["# Weapon Derivation Curves", [], "Range ceilings and derived damage by weapon length.", []]

/-- Above the rows of a subtype. -/
def heading (subtype : WeaponSubtype) : List Text :=
  [Text.concat ["## ", subtype.name], [], "| Length | Range Ceiling | Damage |",
    "|--------|---------------|--------|"]

/-- A row with its three columns. -/
def listed (r : CurveRow) : Text :=
  Text.concat ["| ", r.length.toText, " | ", r.rangeCeiling.toText, " | ", r.damage.toText, " |"]

/-- The lines of a report whose rows are those of the list. -/
def lines (report : WeaponSubtype → List CurveRow) : List Text :=
  opening ++ domains.flatMap fun entry =>
    heading entry.1 ++ (report entry.1).map listed ++ [[]]

theorem table_eq {samples : Int} {shown : List CurveRow} (h : rows subtype samples = .ok shown) :
    table subtype samples = .ok (heading subtype ++ shown.map listed ++ [[]]) := by
  rw [table, h]
  rfl

theorem markdown_eq {samples : Int} {report : WeaponSubtype → List CurveRow}
    (h : ∀ entry ∈ domains, rows entry.1 samples = .ok (report entry.1)) :
    markdown samples = .ok (Text.join "\n" (lines report)) := by
  have htables : domains.mapM (fun entry => table entry.1 samples) = .ok (domains.map fun entry =>
      heading entry.1 ++ (report entry.1).map listed ++ [[]]) := by
    rw [mapM_eq_ok_iff, List.forall₂_map_right_iff, List.forall₂_same]
    exact fun entry hentry => table_eq (h entry hentry)
  unfold markdown
  rw [htables]
  rfl

section Newlines

def newline : CodePoint := CodePoint.ofChar '\n'

theorem newline_not_mem_toText (x : Binary64) : newline ∉ x.toText := by
  cases x with
  | nan => decide
  | number negative rank hle =>
    rcases Nat.lt_or_eq_of_le hle with hlt | rfl
    · obtain ⟨n, -, hdenotes, htext⟩ := Json.Numeral.exists_denotes_render plainStyle negative hlt
      intro hmem
      rw [toText, ← htext] at hmem
      exact hdenotes.proper.forall_mem_text (p := (· ≠ newline))
        (by rintro c hc rfl; revert hc; decide) (by decide) newline hmem rfl
    · show newline ∉ (infinity negative).toText
      cases negative <;> decide +kernel

theorem newline_not_mem_listed (r : CurveRow) : newline ∉ listed r := by
  have hmarks : newline ∉ ("| " : Text) ∧ newline ∉ (" | " : Text) ∧ newline ∉ (" |" : Text) := by
    decide
  simp [listed, Text.concat, newline_not_mem_toText, hmarks]

theorem newline_not_mem_lines (report : WeaponSubtype → List CurveRow) :
    ∀ line ∈ lines report, newline ∉ line := by
  have hopening : ∀ line ∈ opening, newline ∉ line := by decide
  have hheading : ∀ entry ∈ domains, ∀ line ∈ heading entry.1, newline ∉ line := by decide +kernel
  intro line hline
  rcases List.mem_append.mp hline with hline | hline
  · exact hopening line hline
  · obtain ⟨entry, hentry, hline⟩ := List.mem_flatMap.mp hline
    rcases List.mem_append.mp hline with hline | hline
    · rcases List.mem_append.mp hline with hline | hline
      · exact hheading entry hentry line hline
      · obtain ⟨r, -, rfl⟩ := List.mem_map.mp hline
        exact newline_not_mem_listed r
    · obtain rfl := List.mem_singleton.mp hline
      exact List.not_mem_nil

end Newlines

end CurveReport
end EntityTable
