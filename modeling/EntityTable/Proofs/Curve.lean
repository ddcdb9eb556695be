import EntityTable.Attributes
import EntityTable.Proofs.Binary64.Monotone

/-!
Clamped curves over finite values. A mapped value is a number, if not a finite one, and clamping
leaves it between the bounds. A curve that goes up keeps the order of values, and has exactly its
bounds outside its knots, however the line between them is rounded.
-/

namespace EntityTable

open Binary64

/-- A number that is clamped lies between the bounds. -/
theorem Binary64.clampBetween_between {a b value : Binary64} (ha : a.isFinite = true)
    (hb : b.isFinite = true) (hv : value.isNaN = false) :
    (a.min b).le (clampBetween a b value) = true ∧
      (clampBetween a b value).le (a.max b) = true := by
  have hna := isNaN_of_isFinite ha
  have hnmin := isNaN_of_isFinite (min_isFinite ha hb)
  have hnmax := isNaN_of_isFinite (max_isFinite ha hb)
  have hnraised : (value.max (a.min b)).isNaN = false := by
    rcases max_cases value (a.min b) with h | h <;> rwa [h]
  unfold clampBetween
  refine ⟨le_min (le_max_right hv hnmin) ?_, min_le_right hnraised hnmax⟩
  exact le_trans (min_le_left hna) (le_max_left hna)

theorem Binary64.clampBetween_isFinite {a b value : Binary64} (ha : a.isFinite = true)
    (hb : b.isFinite = true) (hv : value.isNaN = false) :
    (clampBetween a b value).isFinite = true := by
  obtain ⟨hlow, hhigh⟩ := clampBetween_between ha hb hv
  exact isFinite_of_between (min_isFinite ha hb) (max_isFinite ha hb) hlow hhigh

theorem Binary64.clampBetween_mono {a b x y : Binary64} (ha : a.isFinite = true)
    (hb : b.isFinite = true) (h : x.le y = true) :
    (clampBetween a b x).le (clampBetween a b y) = true :=
  min_le_min (max_le_max h (isNaN_of_isFinite (min_isFinite ha hb)))
    (isNaN_of_isFinite (max_isFinite ha hb))

/-- The line through the points at `inLow` and `inHigh`. -/
def lineAt (value inLow inHigh outLow outHigh : Binary64) : Binary64 :=
  outLow + (value - inLow) / (inHigh - inLow) * (outHigh - outLow)

theorem mapRange_of_apart {inLow inHigh : Binary64} (h : inHigh.eq inLow = false)
    (value outLow outHigh : Binary64) :
    mapRange value inLow inHigh outLow outHigh true =
      clampBetween outLow outHigh (lineAt value inLow inHigh outLow outHigh) := by
  rw [mapRange, h]
  rfl

namespace Curve

def line (curve : Curve) (value : Binary64) : Binary64 :=
  lineAt value curve.inLow curve.inHigh curve.outLow curve.outHigh

/-- The knots of a curve are finite and apart. -/
structure Proper (curve : Curve) : Prop where
  inLow : curve.inLow.isFinite = true
  outLow : curve.outLow.isFinite = true
  outHigh : curve.outHigh.isFinite = true
  apart : curve.inHigh.eq curve.inLow = false
  width : (curve.inHigh - curve.inLow).IsScale
  height : (curve.outHigh - curve.outLow).IsScale

/-- A curve goes up, and its line gets as far as the upper bound although it is rounded. -/
structure Rising (curve : Curve) : Prop extends Proper curve where
  widens : (curve.inHigh - curve.inLow).IsPositive
  grows : (curve.outHigh - curve.outLow).IsPositive
  ordered : curve.outLow.le curve.outHigh = true
  reaches : curve.outHigh.le (curve.outLow + (curve.outHigh - curve.outLow)) = true
  nonzero : curve.outLow.eq 0 = false ∧ curve.outHigh.eq 0 = false

instance : DecidablePred Proper := fun _ =>
  decidable_of_iff (_ ∧ _ ∧ _ ∧ _ ∧ _ ∧ _)
    ⟨fun ⟨a, b, c, d, e, f⟩ => ⟨a, b, c, d, e, f⟩, fun ⟨a, b, c, d, e, f⟩ => ⟨a, b, c, d, e, f⟩⟩

instance : DecidablePred Rising := fun curve =>
  decidable_of_iff (curve.Proper ∧ _ ∧ _ ∧ _ ∧ _ ∧ _)
    ⟨fun ⟨a, b, c, d, e, f⟩ => ⟨a, b, c, d, e, f⟩, fun ⟨a, b, c, d, e, f⟩ => ⟨a, b, c, d, e, f⟩⟩

variable {curve : Curve} {a b value : Binary64}

namespace Proper

theorem at_eq_clampBetween (h : curve.Proper) (value : Binary64) :
    curve.at value = clampBetween curve.outLow curve.outHigh (curve.line value) :=
  mapRange_of_apart h.apart ..

theorem line_isNaN (h : curve.Proper) (hv : value.isFinite = true) :
    (curve.line value).isNaN = false := by
  have hfactor := isNaN_div (isNaN_sub hv (isNaN_of_isFinite h.inLow)) h.width
  exact isNaN_add h.outLow (isNaN_mul hfactor h.height)

theorem at_between (h : curve.Proper) (hv : value.isFinite = true) :
    (curve.outLow.min curve.outHigh).le (curve.at value) = true ∧
      (curve.at value).le (curve.outLow.max curve.outHigh) = true := by
  rw [h.at_eq_clampBetween]
  exact clampBetween_between h.outLow h.outHigh (h.line_isNaN hv)

/-- No finite value is too large or too small for a proper curve. -/
theorem at_isFinite (h : curve.Proper) (hv : value.isFinite = true) :
    (curve.at value).isFinite = true := by
  rw [h.at_eq_clampBetween]
  exact clampBetween_isFinite h.outLow h.outHigh (h.line_isNaN hv)

end Proper

namespace Rising

theorem line_mono (h : curve.Rising) (hab : a.le b = true) :
    (curve.line a).le (curve.line b) = true := by
  have hdifference := sub_le_sub_right h.inLow hab
  have hfactor := div_le_div_right h.widens hdifference
  have hproduct := mul_le_mul_right h.grows hfactor
  exact add_le_add_left h.outLow hproduct

theorem line_inLow_le (h : curve.Rising) : (curve.line curve.inLow).le curve.outLow = true := by
  rw [line, lineAt, sub_self h.inLow, zero_div h.widens, zero_mul h.grows]
  exact add_zero_le h.outLow

theorem le_line_inHigh (h : curve.Rising) : curve.outHigh.le (curve.line curve.inHigh) = true := by
  rw [line, lineAt, div_self_mul h.widens h.grows]
  exact h.reaches

theorem at_mono (h : curve.Rising) (hab : a.le b = true) :
    (curve.at a).le (curve.at b) = true := by
  rw [h.at_eq_clampBetween, h.at_eq_clampBetween]
  exact clampBetween_mono h.outLow h.outHigh (h.line_mono hab)

theorem outLow_le_at (h : curve.Rising) (hv : value.isFinite = true) :
    curve.outLow.le (curve.at value) = true := by
  have hbetween := h.at_between hv
  rw [min_eq_left h.ordered] at hbetween
  exact hbetween.1

theorem at_le_outHigh (h : curve.Rising) (hv : value.isFinite = true) :
    (curve.at value).le curve.outHigh = true := by
  have hhigh := isNaN_of_isFinite h.outHigh
  exact le_trans (h.at_between hv).2 (max_le h.ordered (le_refl hhigh))

/-- Up to its lower knot, a curve is level. -/
theorem at_of_le_inLow (h : curve.Rising) (hv : value.isFinite = true)
    (hle : value.le curve.inLow = true) : curve.at value = curve.outLow := by
  have hline : (curve.line value).le curve.outLow = true :=
    le_trans (h.line_mono hle) h.line_inLow_le
  have hraised : ((curve.line value).max (curve.outLow.min curve.outHigh)).le curve.outLow = true :=
    max_le hline (min_le_left (isNaN_of_isFinite h.outLow))
  have hat : (curve.at value).le curve.outLow = true := by
    rw [h.at_eq_clampBetween, clampBetween]
    exact le_trans (min_le_left (isNaN_left_of_le hraised)) hraised
  exact (eq_of_le_of_le (h.outLow_le_at hv) hat h.nonzero.1).symm

/-- From its upper knot on, it is level again. -/
theorem at_of_inHigh_le (h : curve.Rising) (hv : value.isFinite = true)
    (hle : curve.inHigh.le value = true) : curve.at value = curve.outHigh := by
  have hline : curve.outHigh.le (curve.line value) = true :=
    le_trans h.le_line_inHigh (h.line_mono hle)
  have hraised : curve.outHigh.le
      ((curve.line value).max (curve.outLow.min curve.outHigh)) = true :=
    le_trans hline (le_max_left (isNaN_right_of_le hline))
  have hat : curve.outHigh.le (curve.at value) = true := by
    rw [h.at_eq_clampBetween, clampBetween]
    exact le_min hraised (le_max_right (isNaN_of_isFinite h.outLow) (isNaN_of_isFinite h.outHigh))
  exact (eq_of_le_of_le hat (h.at_le_outHigh hv) h.nonzero.2).symm

end Rising
end Curve

namespace WeaponSubtype

theorem rising_of_ceilingCurve? {subtype : WeaponSubtype} {curve : Curve}
    (h : subtype.ceilingCurve? = some curve) : curve.Rising := by
  cases subtype <;> cases h <;> decide +kernel

theorem rising_of_damageRule {subtype : WeaponSubtype} {curve : Curve}
    (h : subtype.damageRule = .curve curve) : curve.Rising := by
  cases subtype <;> cases h <;> decide +kernel

theorem isFinite_of_damageRule {subtype : WeaponSubtype} {x : Binary64}
    (h : subtype.damageRule = .constant x) : x.isFinite = true := by
  cases subtype <;> cases h
  decide +kernel

end WeaponSubtype
end EntityTable
