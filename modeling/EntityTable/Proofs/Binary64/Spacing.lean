import EntityTable.Proofs.Binary64.Decimal
import EntityTable.Proofs.Binary64.Monotone

/-!
Counting up in equal steps. A width divided by a count and multiplied by it again misses the width
by the two roundings only, unless the count is so great that the step is a subnormal number. Even
then it overshoots by very little, since no count reaches far past the normal range.
-/

namespace EntityTable.Binary64

variable {x y z c : Binary64}

/-! ### Rounding to decimals -/

/-- The rank of a magnitude after rounding it to decimals. -/
def roundedRank (places rank : Nat) : Nat :=
  if rank < infinityRank then
    nearestRank (roundHalfEven (unitsOf rank * 10 ^ places) unitsPerOne * unitsPerOne) (10 ^ places)
  else rank

theorem roundedRank_le {places rank : Nat} (h : rank ≤ infinityRank) :
    roundedRank places rank ≤ infinityRank := by
  unfold roundedRank
  split
  · exact Nat.min_le_right _ _
  · exact h

theorem roundTo_number (places : Nat) {s : Bool} {r : Nat} {hr : r ≤ infinityRank} :
    (number s r hr).roundTo places = number s (roundedRank places r) (roundedRank_le hr) := by
  by_cases hfinite : r < infinityRank
  · simp only [roundTo, roundedRank, if_pos hfinite]
    rfl
  · simp only [roundTo, roundedRank, if_neg hfinite]

theorem roundedRank_zero (places : Nat) : roundedRank places 0 = 0 := by
  have hround : roundHalfEven 0 unitsPerOne = 0 :=
    Nat.le_zero.mp (roundHalfEven_le unitsPerOne_pos (Nat.zero_le _))
  rw [roundedRank, if_pos infinityRank_pos, unitsOf_zero, Nat.zero_mul, hround, Nat.zero_mul]
  exact Nat.le_zero.mp (nearestRank_le (Nat.pow_pos (by decide)) (Nat.zero_le _))

theorem roundedRank_mono {places r q : Nat} (h : r ≤ q) (hq : q ≤ infinityRank) :
    roundedRank places r ≤ roundedRank places q := by
  rcases Nat.lt_or_eq_of_le hq with hlt | rfl
  · have hscaled : unitsOf r * 10 ^ places ≤ unitsOf q * 10 ^ places :=
      Nat.mul_le_mul_right _ (unitsOf_le hq h)
    rw [roundedRank, if_pos (by omega), roundedRank, if_pos hlt]
    exact nearestRank_mono (Nat.pow_pos (by decide))
      (Nat.mul_le_mul_right _ (roundHalfEven_mono unitsPerOne_pos hscaled))
  · refine (roundedRank_le (h.trans hq)).trans ?_
    rw [roundedRank, if_neg (Nat.lt_irrefl _)]

theorem roundTo_le_roundTo (places : Nat) (h : x.le y = true) :
    (x.roundTo places).le (y.roundTo places) = true := by
  cases x with
  | nan => cases h
  | number s r hr =>
    cases y with
    | nan => cases h
    | number t q hq =>
      rw [roundTo_number, roundTo_number]
      exact decide_eq_true
        (place_map (roundedRank_zero places) roundedRank_mono hr hq (of_decide_eq_true h))

/-! ### Counts -/

theorem ofInt_natCast (n : Nat) : ofInt n = nearest false (n * unitsPerOne) 1 := by
  have hsign : ¬(n : Int) < 0 := by omega
  simp [ofInt, hsign]

theorem ofInt_le_ofInt {m n : Nat} (h : m ≤ n) : (ofInt m).le (ofInt n) = true := by
  rw [ofInt_natCast, ofInt_natCast]
  refine decide_eq_true (Int.ofNat_le.mpr ?_)
  exact nearestRank_mono Nat.one_pos (Nat.mul_le_mul_right _ h)

theorem number_eq_infinity {s : Bool} {r : Nat} {hr : r ≤ infinityRank}
    (h : (number s r hr).isFinite = false) : number s r hr = infinity s := by
  have hrank : ¬r < infinityRank := of_decide_eq_false h
  obtain rfl : r = infinityRank := by omega
  rfl

theorem ofInt_eq_infinity {n : Nat} (h : (ofInt? n).isSome = false) : ofInt n = infinity false := by
  have hinfinite : (ofInt n).isFinite = false := by
    cases hfinite : (ofInt n).isFinite with
    | true => simp [ofInt?, hfinite] at h
    | false => rfl
  rw [ofInt_natCast] at hinfinite ⊢
  exact number_eq_infinity hinfinite

/-! ### Rounding errors -/

theorem roundHalfEven_mul_le {n d : Nat} (hd : 0 < d) : roundHalfEven n d * d ≤ n + d := by
  have hround : roundHalfEven n d ≤ n / d + 1 :=
    roundHalfEven_le hd (Nat.lt_mul_of_div_lt (Nat.lt_succ_self _) hd).le
  calc roundHalfEven n d * d ≤ (n / d + 1) * d := Nat.mul_le_mul_right d hround
    _ = n / d * d + d := by ring
    _ ≤ n + d := Nat.add_le_add_right (Nat.div_mul_le_self n d) d

/-- A mantissa that is rounded up to the end of its binade is the least of the next one. -/
theorem unitsOf_mul_add_of_le {e m : Nat} (hm : m ≤ 2 * mantissaBase)
    (he : 0 < e → mantissaBase ≤ m) : unitsOf (e * mantissaBase + m) = m * 2 ^ e := by
  rcases Nat.lt_or_eq_of_le hm with hlt | rfl
  · exact unitsOf_mul_add hlt he
  · rw [unitsOf_binade (e := e + 1) (by ring), pow_succ]
    ring

/-- The relative error of rounding a quotient to a magnitude, for one that is not too small to have
that many significant bits. -/
theorem unitsOf_nearestRank_le {n d k : Nat} (hd : 0 < d) (hk : k ≤ mantissaBase) (hn : k * d ≤ n)
    (hfinite : nearestRank n d < infinityRank) :
    unitsOf (nearestRank n d) * d * k ≤ n * (k + 1) := by
  have hdouble := roundHalfEven_le_double (n := n) hd
  have hfull := @mantissaBase_le_roundHalfEven n d hd
  have hn' := @mantissaBase_mul_le n d hd
  rw [nearestRank_eq] at hfinite ⊢
  generalize roundingExponent (n / d) = e at hdouble hfull hn' hfinite ⊢
  have hstep : k * (d * 2 ^ e) ≤ n := by
    rcases Nat.eq_zero_or_pos e with rfl | he
    · simpa using hn
    · exact (Nat.mul_le_mul_right _ hk).trans (hn' he)
  have hmul := roundHalfEven_mul_le (n := n) (Nat.mul_pos hd (Nat.two_pow_pos e))
  rw [Nat.min_eq_left (by omega), unitsOf_mul_add_of_le hdouble hfull]
  generalize roundHalfEven n (d * 2 ^ e) = m at hmul
  calc m * 2 ^ e * d * k = m * (d * 2 ^ e) * k := by ring
    _ ≤ (n + d * 2 ^ e) * k := Nat.mul_le_mul_right k hmul
    _ = n * k + k * (d * 2 ^ e) := by ring
    _ ≤ n * k + n := Nat.add_le_add_left hstep _
    _ = n * (k + 1) := by ring

/-! ### Equal steps -/

/-- A step is exact to one part in this many. That is less than for a normal number, as a step may
be a subnormal one. -/
def stepPrecision : Nat := Nat.pow 2 50

/-- However many steps there are, each still has that many units. -/
theorem stepPrecision_mul_le {d q : Nat} (hd : unitsPerOne ≤ d) (hq : q ≤ infinityRank) :
    stepPrecision * unitsOf q ≤ d * unitsPerOne := by
  obtain ⟨places, hplaces, hunits⟩ := exists_unitsPerOne
  have hprecision : stepPrecision = 2 ^ 50 := rfl
  have hsum : 50 + (places + 1024) = places + places := by omega
  calc stepPrecision * unitsOf q ≤ stepPrecision * unitsOf infinityRank :=
        Nat.mul_le_mul_left _ (unitsOf_le (Nat.le_refl _) hq)
    _ = unitsPerOne * unitsPerOne := by
        rw [unitsOf_infinityRank hplaces, hprecision, ← pow_add, hsum, pow_add, ← hunits]
    _ ≤ d * unitsPerOne := Nat.mul_le_mul_right _ hd

/-- The rank of a step, from those of the width and of the count. -/
def stepRank (width count : Nat) : Nat :=
  nearestRank (unitsOf width * unitsPerOne) (unitsOf count)

theorem stepRank_le_infinityRank (width count : Nat) : stepRank width count ≤ infinityRank :=
  Nat.min_le_right _ _

theorem unitsPerOne_le {q : Nat} (hq : q ≤ infinityRank) (h : oneRank ≤ q) :
    unitsPerOne ≤ unitsOf q := by
  rw [← unitsOf_oneRank]
  exact unitsOf_le hq h

section Ranks

variable {d q m : Nat} (hq : q < infinityRank) (hq1 : oneRank ≤ q)
include hq hq1

theorem unitsOf_count_pos : 0 < unitsOf q :=
  Nat.lt_of_lt_of_le unitsPerOne_pos (unitsPerOne_le hq.le hq1)

theorem stepRank_le : stepRank d q ≤ d :=
  nearestRank_le (unitsOf_count_pos hq hq1) (Nat.mul_le_mul_left _ (unitsPerOne_le hq.le hq1))

variable (hd : d < infinityRank) (hd1 : oneRank ≤ d)
include hd hd1

theorem stepRank_pos : 0 < stepRank d q := by
  have hone : unitsOf 1 = 1 := by decide
  refine le_nearestRank (unitsOf_count_pos hq hq1) (show 1 ≤ infinityRank by decide) ?_
  calc unitsOf 1 * unitsOf q = 1 * unitsOf q := by rw [hone]
    _ ≤ stepPrecision * unitsOf q := Nat.mul_le_mul_right _ (Nat.two_pow_pos 50)
    _ ≤ unitsOf d * unitsPerOne := stepPrecision_mul_le (unitsPerOne_le hd.le hd1) hq.le

/-- All steps together stay below any magnitude that leaves room for the error of one of them. -/
theorem steps_le (hroom : unitsOf d * (stepPrecision + 1) ≤ unitsOf m * stepPrecision) :
    nearestRank (unitsOf q * unitsOf (stepRank d q)) unitsPerOne ≤ m := by
  have hsmall : stepPrecision ≤ mantissaBase := by decide
  have herror := unitsOf_nearestRank_le (unitsOf_count_pos hq hq1) hsmall
    (stepPrecision_mul_le (unitsPerOne_le hd.le hd1) hq.le)
    (Nat.lt_of_le_of_lt (stepRank_le hq hq1) hd)
  refine nearestRank_le unitsPerOne_pos (Nat.le_of_mul_le_mul_right ?_ (Nat.two_pow_pos 50))
  calc unitsOf q * unitsOf (stepRank d q) * stepPrecision
      = unitsOf (stepRank d q) * unitsOf q * stepPrecision := by ring
    _ ≤ unitsOf d * unitsPerOne * (stepPrecision + 1) := herror
    _ = unitsOf d * (stepPrecision + 1) * unitsPerOne := by ring
    _ ≤ unitsOf m * stepPrecision * unitsPerOne := Nat.mul_le_mul_right _ hroom
    _ = unitsOf m * unitsPerOne * stepPrecision := by ring

end Ranks

/-- A finite number that is not below one. -/
def IsWide (x : Binary64) : Prop := le 1 x = true ∧ x.isFinite = true

instance (x : Binary64) : Decidable x.IsWide := inferInstanceAs (Decidable (_ ∧ _))

theorem IsWide.exists_rank (h : x.IsWide) :
    ∃ q hq, x = number false q hq ∧ oneRank ≤ q ∧ q < infinityRank := by
  obtain ⟨h1, hfinite⟩ := h
  have hone : (1 : Binary64) = number false oneRank (by decide) := by decide +kernel
  rw [hone] at h1
  cases x with
  | nan => cases h1
  | number s q hq =>
    have hplace : place false oneRank ≤ place s q := of_decide_eq_true h1
    have hpos : 0 < oneRank := by decide
    cases s with
    | false => exact ⟨q, hq, rfl, Int.ofNat_le.mp hplace, of_decide_eq_true hfinite⟩
    | true =>
      simp only [place, if_true, Bool.false_eq_true, if_false] at hplace
      omega

theorem isPositive_number_iff {q : Nat} {hq : q ≤ infinityRank} :
    (number false q hq).IsPositive ↔ 0 < q ∧ q < infinityRank := by
  rw [IsPositive, zero_eq]
  simp [lt, place, isFinite]

/-- The magnitude of a number in units. -/
def magnitude : Binary64 → Nat
  | .nan => 0
  | .number _ rank _ => unitsOf rank

section Steps

variable (hx : x.IsWide) (hc : c.IsWide)
include hx hc

theorem IsWide.exists_div_eq : ∃ d hd q hq, x = number false d hd ∧ c = number false q hq ∧
    x / c = number false (stepRank d q) (stepRank_le_infinityRank d q) ∧
      d < infinityRank ∧ q < infinityRank ∧ oneRank ≤ d ∧ oneRank ≤ q := by
  obtain ⟨d, hd, rfl, hd1, hdinf⟩ := hx.exists_rank
  obtain ⟨q, hq, rfl, hq1, hqinf⟩ := hc.exists_rank
  refine ⟨d, hd, q, hq, rfl, rfl, ?_, hdinf, hqinf, hd1, hq1⟩
  rw [div_eq_scale (Nat.lt_of_lt_of_le (by decide) hq1) hqinf]
  simp only [scale, scaledRank, if_neg (Nat.ne_of_lt hdinf), stepRank]

theorem IsWide.div_isPositive : (x / c).IsPositive := by
  obtain ⟨d, hd, q, hq, rfl, rfl, hquotient, hdinf, hqinf, hd1, hq1⟩ := hx.exists_div_eq hc
  rw [hquotient]
  exact isPositive_number_iff.mpr ⟨stepRank_pos hqinf hq1 hdinf hd1,
    Nat.lt_of_le_of_lt (stepRank_le hqinf hq1) hdinf⟩

theorem IsWide.mul_div_le (hz : z.IsPositive)
    (hroom : x.magnitude * (stepPrecision + 1) ≤ z.magnitude * stepPrecision) :
    (c * (x / c)).le z = true := by
  have hstep := hx.div_isPositive hc
  obtain ⟨d, hd, q, hq, rfl, rfl, hquotient, hdinf, hqinf, hd1, hq1⟩ := hx.exists_div_eq hc
  obtain ⟨m, hm, rfl, -, -⟩ := hz.exists_rank
  rw [hquotient] at hstep ⊢
  obtain ⟨hpos, hfinite⟩ := isPositive_number_iff.mp hstep
  rw [mul_eq_scale hpos hfinite]
  simp only [magnitude] at hroom
  have hsteps := steps_le hqinf hq1 hdinf hd1 hroom
  simpa only [scale, scaledRank, if_neg (Nat.ne_of_lt hqinf), le, place, Bool.false_eq_true,
    if_false, decide_eq_true_eq, Int.ofNat_le] using hsteps

end Steps

/-! ### Points on the way -/

/-- The point that some steps lead to. -/
def pointAt (start step : Binary64) (i : Nat) : Binary64 := ofInt i * step + start

section Points

variable {start step : Binary64}

theorem pointAt_le_pointAt (hstart : start.isFinite = true) (hstep : step.IsPositive) {i j : Nat}
    (h : i ≤ j) : (pointAt start step i).le (pointAt start step j) = true := by
  unfold pointAt
  rw [add_comm _ start, add_comm _ start]
  exact add_le_add_left hstart (mul_le_mul_right hstep (ofInt_le_ofInt h))

theorem pointAt_zero (hstep : step.IsPositive) : pointAt start step 0 = 0 + start := by
  have hzero : ofInt (0 : Nat) = 0 := rfl
  rw [pointAt, hzero, zero_mul hstep]

/-- No point lies further off than all steps lead, up to the errors of rounding. -/
theorem pointAt_le (hstart : start.isFinite = true) (hx : x.IsWide) {i n : Nat}
    (hn : (ofInt n).IsWide) (hz : z.IsPositive)
    (hroom : x.magnitude * (stepPrecision + 1) ≤ z.magnitude * stepPrecision) (h : i ≤ n) :
    (pointAt start (x / ofInt n) i).le (start + z) = true := by
  refine le_trans (pointAt_le_pointAt hstart (hx.div_isPositive hn) h) ?_
  rw [pointAt, add_comm]
  exact add_le_add_left hstart (hx.mul_div_le hn hz hroom)

end Points

/-- A count other than none is a number not below one, unless it is too great to be a number. -/
theorem isWide_ofInt {n : Nat} (hpos : 0 < n) (h : (ofInt? n).isSome = true) :
    (ofInt n).IsWide := by
  refine ⟨ofInt_le_ofInt hpos, ?_⟩
  by_contra hinfinite
  simp [ofInt?, hinfinite] at h

end EntityTable.Binary64
