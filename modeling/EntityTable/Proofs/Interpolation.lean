import EntityTable.Proofs.Curve

/-!
Clamped maps between arbitrary ranges. The result lies between the bounds of the output range
whenever it is a number. It fails to be one exactly if an intermediate result overflows and then
meets another overflow, a zero, or a range of one point; clamping does not bring a NaN back.
-/

namespace EntityTable

namespace Binary64

variable {x y : Binary64}

section Numbers

variable {s t : Bool} {r q : Nat} {hr : r ≤ infinityRank} {hq : q ≤ infinityRank}

theorem number_not_finite_iff : (number s r hr).isFinite = false ↔ r = infinityRank := by
  simp only [isFinite, decide_eq_false_iff_not]
  omega

theorem isNaN_mul_number : (number s r hr * number t q hq).isNaN = true ↔
    r = infinityRank ∧ q = 0 ∨ r = 0 ∧ q = infinityRank := by
  have hpos := infinityRank_pos
  show (mul _ _).isNaN = true ↔ _
  rw [mul]
  split
  · split
    · simp only [isNaN, true_iff]
      omega
    · simp only [infinity, isNaN, Bool.false_eq_true, false_iff]
      omega
  · simp only [nearest, isNaN, Bool.false_eq_true, false_iff]
    omega

theorem isNaN_div_number (hne : q ≠ 0) : (number s r hr / number t q hq).isNaN = true ↔
    r = infinityRank ∧ q = infinityRank := by
  show (div _ _).isNaN = true ↔ _
  rw [div, if_neg hne]
  split_ifs <;> simp [infinity, zero, nearest, isNaN, *]

theorem roundedPlace_eq_zero_iff {units : Int} : roundedPlace units = 0 ↔ units = 0 := by
  constructor
  · intro h
    by_contra hne
    have hone : unitsOf 1 = 1 := by decide
    have hrank : 1 ≤ nearestRank units.natAbs 1 := by
      refine le_nearestRank Nat.one_pos (show 1 ≤ infinityRank from infinityRank_pos) ?_
      rw [hone]
      omega
    unfold roundedPlace place at h
    split at h <;> omega
  · rintro rfl
    exact roundedPlace_zero

theorem signedUnits_eq_iff (hr : r ≤ infinityRank) (hq : q ≤ infinityRank) :
    signedUnits s r = signedUnits t q ↔ place s r = place t q := by
  constructor
  · intro h
    rw [← roundedPlace_signedUnits hr, h, roundedPlace_signedUnits hq]
  · intro h
    exact (signedUnits_le hr hq h.le).antisymm (signedUnits_le hq hr h.ge)

end Numbers

/-! ### Operations that end in a NaN -/

theorem isNaN_add_eq (hx : x.isFinite = true) (y : Binary64) : (x + y).isNaN = y.isNaN := by
  cases hy : y.isNaN with
  | false => exact isNaN_add hx hy
  | true =>
    cases y with
    | nan => cases x <;> rfl
    | number t q hq => cases hy

theorem isNaN_mul_iff (hx : x.isNaN = false) (hy : y.isNaN = false) :
    (x * y).isNaN = true ↔ x.isFinite = false ∧ y.eq 0 = true ∨
      x.eq 0 = true ∧ y.isFinite = false := by
  cases x with
  | nan => cases hx
  | number s r hr =>
    cases y with
    | nan => cases hy
    | number t q hq =>
      rw [isNaN_mul_number, number_eq_zero_iff, number_eq_zero_iff, number_not_finite_iff,
        number_not_finite_iff]

/-- A quotient by a number other than zero. -/
theorem isNaN_div_iff (hx : x.isNaN = false) (hy : y.isNaN = false) (hne : y.eq 0 = false) :
    (x / y).isNaN = true ↔ x.isFinite = false ∧ y.isFinite = false := by
  cases x with
  | nan => cases hx
  | number s r hr =>
    cases y with
    | nan => cases hy
    | number t q hq =>
      have hq0 : q ≠ 0 := fun h => by simp [number_eq_zero_iff.mpr h] at hne
      rw [isNaN_div_number hq0, number_not_finite_iff, number_not_finite_iff]

theorem isNaN_mul_of_left (h : x.isNaN = true) (y : Binary64) : (x * y).isNaN = true := by
  cases x with
  | nan => cases y <;> rfl
  | number s r hr => cases h

/-- Rounding makes no difference vanish. -/
theorem sub_eq_zero (hx : x.isFinite = true) (hy : y.isFinite = true) :
    (x - y).eq 0 = x.eq y := by
  cases x with
  | nan => cases hx
  | number s r hr =>
    cases y with
    | nan => cases hy
    | number t q hq =>
      have hneg : signedUnits (!t) q = -signedUnits t q := by cases t <;> simp [signedUnits]
      obtain ⟨u, m, hm, hsum, hplace⟩ := exists_add_eq s (!t) hr hq
        (of_decide_eq_true hx) (of_decide_eq_true hy)
      have hdifference : number s r hr - number t q hq = number u m hm := hsum
      have hzero : place u m = 0 ↔ place s r = place t q := by
        rw [hplace, hneg, roundedPlace_eq_zero_iff, ← signedUnits_eq_iff hr hq]
        omega
      rw [hdifference, zero_eq, Bool.eq_iff_iff]
      simpa [Binary64.eq, place] using hzero

theorem clampBetween_isNaN {a b value : Binary64} (h : value.isNaN = true) :
    (clampBetween a b value).isNaN = true := by
  cases value with
  | number s r hr => cases h
  | nan =>
    have hmax : nan.max (a.min b) = nan := if_neg Bool.false_ne_true
    have hmin : nan.min (a.max b) = nan := if_neg (by cases a.max b <;> exact Bool.false_ne_true)
    rw [clampBetween, hmax, hmin]
    rfl

end Binary64

open Binary64

/-- The line through two points has no value. -/
inductive Unsettled (value inLow inHigh outLow outHigh : Binary64) : Prop
  /-- Both differences of the factor overflow. -/
  | quotient (hvalue : (value - inLow).isFinite = false)
      (hwidth : (inHigh - inLow).isFinite = false)
  /-- The factor overflows, and the output range is a point. -/
  | point (hfactor : ((value - inLow) / (inHigh - inLow)).isFinite = false)
      (hheight : outHigh.eq outLow = true)
  /-- The factor is zero, and the output range overflows. -/
  | span (hfactor : ((value - inLow) / (inHigh - inLow)).eq 0 = true)
      (hheight : (outHigh - outLow).isFinite = false)

section Maps

variable {value inLow inHigh outLow outHigh : Binary64} (hvalue : value.isFinite = true)
  (hinLow : inLow.isFinite = true) (hinHigh : inHigh.isFinite = true)
  (houtLow : outLow.isFinite = true) (houtHigh : outHigh.isFinite = true)
include hvalue hinLow hinHigh houtLow houtHigh

theorem lineAt_isNaN_iff (hapart : inHigh.eq inLow = false) :
    (lineAt value inLow inHigh outLow outHigh).isNaN = true ↔
      Unsettled value inLow inHigh outLow outHigh := by
  have hdifference := isNaN_sub hvalue (isNaN_of_isFinite hinLow)
  have hwidth := isNaN_sub hinHigh (isNaN_of_isFinite hinLow)
  have hheight := isNaN_sub houtHigh (isNaN_of_isFinite houtLow)
  have hscale : (inHigh - inLow).eq 0 = false := (sub_eq_zero hinHigh hinLow).trans hapart
  have hquotient := isNaN_div_iff hdifference hwidth hscale
  rw [lineAt, isNaN_add_eq houtLow]
  cases hfactor : ((value - inLow) / (inHigh - inLow)).isNaN with
  | true =>
    obtain ⟨hv, hw⟩ := hquotient.mp hfactor
    exact ⟨fun _ => .quotient hv hw, fun _ => isNaN_mul_of_left hfactor _⟩
  | false =>
    rw [isNaN_mul_iff hfactor hheight, sub_eq_zero houtHigh houtLow]
    constructor
    · rintro (⟨hf, hh⟩ | ⟨hf, hh⟩)
      · exact .point hf hh
      · exact .span hf hh
    · rintro (⟨hv, hw⟩ | ⟨hf, hh⟩ | ⟨hf, hh⟩)
      · rw [hquotient.mpr ⟨hv, hw⟩] at hfactor
        cases hfactor
      · exact .inl ⟨hf, hh⟩
      · exact .inr ⟨hf, hh⟩

end Maps

/-- A clamped map of finite numbers is a number between the bounds of the output range, unless the
line has no value, and then the map has none. -/
theorem mapRange_clamped (value inLow inHigh outLow outHigh : Binary64)
    (hvalue : value.isFinite = true) (hinLow : inLow.isFinite = true)
    (hinHigh : inHigh.isFinite = true) (houtLow : outLow.isFinite = true)
    (houtHigh : outHigh.isFinite = true) :
    ((mapRange value inLow inHigh outLow outHigh true).isNaN = true ↔
      inHigh.eq inLow = false ∧ Unsettled value inLow inHigh outLow outHigh) ∧
    ((mapRange value inLow inHigh outLow outHigh true).isNaN = false →
      (mapRange value inLow inHigh outLow outHigh true).isFinite = true ∧
      (outLow.min outHigh).le (mapRange value inLow inHigh outLow outHigh true) = true ∧
      (mapRange value inLow inHigh outLow outHigh true).le (outLow.max outHigh) = true) := by
  have hlow := isNaN_of_isFinite houtLow
  have hhigh := isNaN_of_isFinite houtHigh
  cases hapart : inHigh.eq inLow with
  | true =>
    have hends : mapRange value inLow inHigh outLow outHigh true = outLow ∨
        mapRange value inLow inHigh outLow outHigh true = outHigh := by
      rw [mapRange, hapart, if_pos rfl]
      exact ite_eq_or_eq ..
    rcases hends with hend | hend <;> rw [hend]
    · exact ⟨by simp [hlow], fun _ => ⟨houtLow, min_le_left hlow, le_max_left hlow⟩⟩
    · exact ⟨by simp [hhigh], fun _ => ⟨houtHigh, min_le_right hlow hhigh, le_max_right hlow hhigh⟩⟩
  | false =>
    have hline := lineAt_isNaN_iff hvalue hinLow hinHigh houtLow houtHigh hapart
    rw [mapRange_of_apart hapart, ← hline]
    cases hnan : (lineAt value inLow inHigh outLow outHigh).isNaN with
    | true =>
      have hclamped := clampBetween_isNaN (a := outLow) (b := outHigh) hnan
      simp [hclamped]
    | false =>
      have hfinite := clampBetween_isFinite houtLow houtHigh hnan
      have hclamped := isNaN_of_isFinite hfinite
      obtain ⟨hge, hle⟩ := clampBetween_between houtLow houtHigh hnan
      simp [hclamped, hfinite, hge, hle]

/-- The factor overflows on a downward map, and the clamp still brings it down to the lower bound. -/
theorem mapRange_clamped_downward :
    mapRange 1e308 (-1e308) 1 1.1 0.6 true = 0.6 ∧
      (min 1.1 0.6 : Binary64).le (mapRange 1e308 (-1e308) 1 1.1 0.6 true) = true ∧
      (mapRange 1e308 (-1e308) 1 1.1 0.6 true).le (max 1.1 0.6) = true := by
  have hvalue : mapRange 1e308 (-1e308) 1 1.1 0.6 true = 0.6 := by decide +kernel
  have hnumber : (mapRange 1e308 (-1e308) 1 1.1 0.6 true).isNaN = false := by
    rw [hvalue]
    decide +kernel
  have hclamped := mapRange_clamped 1e308 (-1e308) 1 1.1 0.6 (by decide +kernel)
    (by decide +kernel) (by decide +kernel) (by decide +kernel) (by decide +kernel)
  exact ⟨hvalue, (hclamped.2 hnumber).2⟩

/-- At the upper end of an input range that is too wide for its own width, the map has no value. -/
theorem mapRange_clamped_unsettled : ¬∀ value inLow inHigh outLow outHigh : Binary64,
    value.isFinite = true → inLow.isFinite = true → inHigh.isFinite = true →
      outLow.isFinite = true → outHigh.isFinite = true →
      (mapRange value inLow inHigh outLow outHigh true).isFinite = true := by
  intro h
  have hfinite := h 1e308 (-1e308) 1e308 0 1 (by decide +kernel) (by decide +kernel)
    (by decide +kernel) (by decide +kernel) (by decide +kernel)
  exact absurd hfinite (by decide +kernel)

end EntityTable
