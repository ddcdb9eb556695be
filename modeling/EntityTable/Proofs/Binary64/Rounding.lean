import EntityTable.Binary64
import Mathlib.Algebra.Order.Ring.Nat
import Mathlib.Tactic.Ring

/-!
Rounding is monotone and exact: a quotient that lies below a magnitude, or above it, is not rounded
past it. What is needed to know of `nearestRank` follows from these two facts.
-/

namespace EntityTable.Binary64

theorem mantissaBase_eq : mantissaBase = 2 ^ 52 := rfl

theorem mantissaBase_pos : 0 < mantissaBase := Nat.two_pow_pos 52

/-! ### Ranks and their units -/

/-- Ranks below this one are their own mantissas; every mantissa of a greater one is normal. -/
theorem mantissaOf_lt (rank : Nat) : mantissaOf rank < 2 * mantissaBase := by
  have hdiv := Nat.div_add_mod rank mantissaBase
  have hmod := Nat.mod_lt rank mantissaBase_pos
  unfold mantissaOf exponentOf
  generalize rank / mantissaBase = q at hdiv ⊢
  cases q with
  | zero => omega
  | succ e =>
    rw [Nat.add_sub_cancel, Nat.mul_comm e]
    rw [Nat.mul_succ] at hdiv
    omega

theorem le_mantissaOf {rank : Nat} (h : 0 < exponentOf rank) : mantissaBase ≤ mantissaOf rank := by
  have hdiv := Nat.div_add_mod rank mantissaBase
  unfold mantissaOf
  unfold exponentOf at h ⊢
  generalize rank / mantissaBase = q at hdiv h ⊢
  cases q with
  | zero => omega
  | succ e =>
    rw [Nat.add_sub_cancel, Nat.mul_comm e]
    rw [Nat.mul_succ] at hdiv
    omega

theorem exponentOf_mul_add_mantissaOf (rank : Nat) :
    exponentOf rank * mantissaBase + mantissaOf rank = rank := by
  have hle : exponentOf rank * mantissaBase ≤ rank := by
    refine (Nat.mul_le_mul_right _ ?_).trans (Nat.div_mul_le_self rank mantissaBase)
    exact Nat.sub_le _ _
  unfold mantissaOf
  omega

/-- Every pair of an exponent and a mantissa of its range is that of a rank. -/
theorem unitsOf_mul_add {e m : Nat} (hm : m < 2 * mantissaBase) (he : 0 < e → mantissaBase ≤ m) :
    unitsOf (e * mantissaBase + m) = m * 2 ^ e := by
  have hbase := mantissaBase_pos
  have hexp : exponentOf (e * mantissaBase + m) = e := by
    unfold exponentOf
    rw [Nat.mul_comm, Nat.mul_add_div hbase]
    rcases Nat.eq_zero_or_pos e with rfl | hpos
    · have hsmall : m / mantissaBase < 2 := (Nat.div_lt_iff_lt_mul hbase).mpr hm
      omega
    · have hone : m / mantissaBase = 1 :=
        Nat.div_eq_of_lt_le (by have := he hpos; omega) (by omega)
      omega
  have hmantissa : mantissaOf (e * mantissaBase + m) = m := by
    unfold mantissaOf
    rw [hexp]
    omega
  rw [unitsOf, hexp, hmantissa]
  rfl

/-! ### Rounding to an integer -/

theorem roundHalfEven_le {n d k : Nat} (hd : 0 < d) (h : n ≤ k * d) : roundHalfEven n d ≤ k := by
  have hdiv := Nat.div_add_mod n d
  have hq : n / d ≤ k := Nat.div_le_of_le_mul (by rw [Nat.mul_comm]; exact h)
  unfold roundHalfEven
  rcases Nat.lt_or_ge (n / d) k with hlt | hge
  · dsimp only
    split_ifs <;> omega
  · have heq : n / d = k := by omega
    have hexact : n % d = 0 := by
      rw [heq, Nat.mul_comm d k] at hdiv
      omega
    simp [hexact, hd, heq]

theorem le_roundHalfEven {n d k : Nat} (hd : 0 < d) (h : k * d ≤ n) : k ≤ roundHalfEven n d := by
  have hq : k ≤ n / d := (Nat.le_div_iff_mul_le hd).mpr h
  unfold roundHalfEven
  dsimp only
  split_ifs <;> omega

/-! ### Rounding to a rank -/

/-- The exponent at which a quotient is rounded. -/
def roundingExponent (quotient : Nat) : Nat :=
  if quotient < 2 * mantissaBase then 0 else quotient.log2 - 52

theorem nearestRank_eq (n d : Nat) : nearestRank n d =
    Min.min (roundingExponent (n / d) * mantissaBase +
      roundHalfEven n (d * 2 ^ roundingExponent (n / d))) infinityRank := rfl

theorem lt_of_roundingExponent (q : Nat) : q < 2 * mantissaBase * 2 ^ roundingExponent q := by
  unfold roundingExponent
  split
  · simpa
  · next hlarge =>
    have hq : q ≠ 0 := by have := mantissaBase_pos; omega
    have hlog : 53 ≤ q.log2 := by
      rw [Nat.le_log2 hq]
      rw [mantissaBase_eq] at hlarge
      omega
    have hpow : 2 * mantissaBase * 2 ^ (q.log2 - 52) = 2 ^ (q.log2 + 1) := by
      rw [mantissaBase_eq, ← pow_succ', ← pow_add]
      congr 1
      omega
    rw [hpow]
    exact Nat.lt_log2_self

theorem le_of_roundingExponent_pos {q : Nat} (h : 0 < roundingExponent q) :
    mantissaBase * 2 ^ roundingExponent q ≤ q := by
  unfold roundingExponent at h ⊢
  split at h
  · omega
  · next hlarge =>
    have hq : q ≠ 0 := by have := mantissaBase_pos; omega
    have hpow : mantissaBase * 2 ^ (q.log2 - 52) = 2 ^ q.log2 := by
      rw [mantissaBase_eq, ← pow_add]
      congr 1
      omega
    rw [if_neg hlarge, hpow]
    exact Nat.log2_self_le hq

/-- The next binade begins where the mantissas of this one end. -/
theorem double_mul_two_pow_le {e e' : Nat} (h : e < e') :
    2 * mantissaBase * 2 ^ e ≤ mantissaBase * 2 ^ e' := by
  have hpow : 2 ^ (e + 1) ≤ 2 ^ e' := Nat.pow_le_pow_right (by decide) h
  calc 2 * mantissaBase * 2 ^ e = mantissaBase * 2 ^ (e + 1) := by rw [pow_succ]; ring
    _ ≤ mantissaBase * 2 ^ e' := Nat.mul_le_mul_left _ hpow

section

variable {n d rank : Nat} (hd : 0 < d)
include hd

/-- A quotient is rounded to a mantissa, or to the one past the last. -/
theorem roundHalfEven_le_double :
    roundHalfEven n (d * 2 ^ roundingExponent (n / d)) ≤ 2 * mantissaBase := by
  refine roundHalfEven_le (Nat.mul_pos hd (Nat.two_pow_pos _)) ?_
  calc n ≤ (n / d + 1) * d := (Nat.lt_mul_of_div_lt (Nat.lt_succ_self _) hd).le
    _ ≤ 2 * mantissaBase * 2 ^ roundingExponent (n / d) * d :=
        Nat.mul_le_mul_right d (lt_of_roundingExponent (n / d))
    _ = 2 * mantissaBase * (d * 2 ^ roundingExponent (n / d)) := by ring

/-- Above the subnormal ones, a quotient has all bits of a mantissa. -/
theorem mantissaBase_mul_le (he : 0 < roundingExponent (n / d)) :
    mantissaBase * (d * 2 ^ roundingExponent (n / d)) ≤ n := by
  calc mantissaBase * (d * 2 ^ roundingExponent (n / d))
      = mantissaBase * 2 ^ roundingExponent (n / d) * d := by ring
    _ ≤ n := (Nat.le_div_iff_mul_le hd).mp (le_of_roundingExponent_pos he)

theorem mantissaBase_le_roundHalfEven (he : 0 < roundingExponent (n / d)) :
    mantissaBase ≤ roundHalfEven n (d * 2 ^ roundingExponent (n / d)) :=
  le_roundHalfEven (Nat.mul_pos hd (Nat.two_pow_pos _)) (mantissaBase_mul_le hd he)

/-- What lies below a magnitude is not rounded past it. -/
theorem nearestRank_le (h : n ≤ unitsOf rank * d) : nearestRank n d ≤ rank := by
  have hdouble := roundHalfEven_le_double (n := n) hd
  have habove := @le_of_roundingExponent_pos (n / d)
  have hrank := exponentOf_mul_add_mantissaOf rank
  have hmantissa := mantissaOf_lt rank
  have hnormal := @le_mantissaOf rank
  rw [nearestRank_eq]
  refine (Nat.min_le_left _ _).trans ?_
  rw [unitsOf] at h
  generalize roundingExponent (n / d) = e at hdouble habove ⊢
  generalize exponentOf rank = e' at hrank hnormal h
  generalize mantissaOf rank = m' at hrank hmantissa hnormal h
  have hscale : 0 < d * 2 ^ e := Nat.mul_pos hd (Nat.two_pow_pos e)
  rcases Nat.lt_trichotomy e e' with hlt | rfl | hgt
  · -- a binade further up than that of the quotient
    have hnext : (e + 1) * mantissaBase ≤ e' * mantissaBase := Nat.mul_le_mul_right _ hlt
    have hm' := hnormal (by omega)
    rw [Nat.succ_mul] at hnext
    omega
  · have hround : roundHalfEven n (d * 2 ^ e) ≤ m' := by
      refine roundHalfEven_le hscale ?_
      calc n ≤ m' * 2 ^ e * d := h
        _ = m' * (d * 2 ^ e) := by ring
    omega
  · -- a binade further down, where the quotient cannot be
    have hn : mantissaBase * 2 ^ e * d ≤ n :=
      (Nat.le_div_iff_mul_le hd).mp (habove (by omega))
    have hm : m' * 2 ^ e' * d < 2 * mantissaBase * 2 ^ e' * d :=
      Nat.mul_lt_mul_of_pos_right (Nat.mul_lt_mul_of_pos_right hmantissa (Nat.two_pow_pos e')) hd
    have hbinade := Nat.mul_le_mul_right d (double_mul_two_pow_le hgt)
    have hpow : m' * Nat.pow 2 e' * d = m' * 2 ^ e' * d := rfl
    omega

/-- What lies above a magnitude is not rounded past it. -/
theorem le_nearestRank (hr : rank ≤ infinityRank) (h : unitsOf rank * d ≤ n) :
    rank ≤ nearestRank n d := by
  have hbelow := lt_of_roundingExponent (n / d)
  have hfull := @mantissaBase_le_roundHalfEven n d hd
  have hrank := exponentOf_mul_add_mantissaOf rank
  have hmantissa := mantissaOf_lt rank
  have hnormal := @le_mantissaOf rank
  rw [nearestRank_eq]
  refine Nat.le_min.mpr ⟨?_, hr⟩
  rw [unitsOf] at h
  generalize roundingExponent (n / d) = e at hbelow hfull ⊢
  generalize exponentOf rank = e' at hrank hnormal h
  generalize mantissaOf rank = m' at hrank hmantissa hnormal h
  have hscale : 0 < d * 2 ^ e := Nat.mul_pos hd (Nat.two_pow_pos e)
  rcases Nat.lt_trichotomy e e' with hlt | rfl | hgt
  · -- a binade further up than that of the quotient, which is too great for that
    have hm : mantissaBase * 2 ^ e' * d ≤ m' * 2 ^ e' * d :=
      Nat.mul_le_mul_right d (Nat.mul_le_mul_right _ (hnormal (by omega)))
    have hn : n < 2 * mantissaBase * 2 ^ e * d := by
      calc n < (n / d + 1) * d := Nat.lt_mul_of_div_lt (Nat.lt_succ_self _) hd
        _ ≤ 2 * mantissaBase * 2 ^ e * d := Nat.mul_le_mul_right d hbelow
    have hdouble := Nat.mul_le_mul_right d (double_mul_two_pow_le hlt)
    have hpow : m' * Nat.pow 2 e' * d = m' * 2 ^ e' * d := rfl
    omega
  · have hround : m' ≤ roundHalfEven n (d * 2 ^ e) := by
      refine le_roundHalfEven hscale ?_
      calc m' * (d * 2 ^ e) = m' * 2 ^ e * d := by ring
        _ ≤ n := h
    omega
  · have hround := hfull (by omega)
    have hnext : (e' + 1) * mantissaBase ≤ e * mantissaBase := Nat.mul_le_mul_right _ hgt
    rw [Nat.succ_mul] at hnext
    omega

/-- A magnitude is rounded to itself. -/
theorem nearestRank_unitsOf (hr : rank ≤ infinityRank) : nearestRank (unitsOf rank * d) d = rank :=
  (nearestRank_le hd (Nat.le_refl _)).antisymm (le_nearestRank hd hr (Nat.le_refl _))

end

theorem unitsOf_le {r q : Nat} (hq : q ≤ infinityRank) (h : r ≤ q) : unitsOf r ≤ unitsOf q := by
  by_contra hlt
  have hle : nearestRank (unitsOf q * 1) 1 ≤ r :=
    nearestRank_le Nat.one_pos (Nat.mul_le_mul_right 1 (Nat.le_of_not_le hlt))
  rw [nearestRank_unitsOf Nat.one_pos hq] at hle
  obtain rfl : r = q := h.antisymm hle
  exact hlt (Nat.le_refl _)

/-! ### Magnitudes in units -/

/-- The least magnitude of a binade. -/
theorem unitsOf_binade {e rank : Nat} (h : rank = (e + 1) * mantissaBase) :
    unitsOf rank = mantissaBase * 2 ^ e := by
  have hbase := mantissaBase_pos
  rw [h, Nat.succ_mul]
  exact unitsOf_mul_add (by omega) fun _ => Nat.le_refl _

/-- From one binade to another that is `a` further up. -/
theorem unitsOf_binade_add {a b rank rank' : Nat} (h : rank = (b + 1) * mantissaBase)
    (h' : rank' = (b + a + 1) * mantissaBase) : unitsOf rank' = unitsOf rank * 2 ^ a := by
  rw [unitsOf_binade h, unitsOf_binade h', pow_add, Nat.mul_assoc]

/-- The units in one, as a product of powers of two. -/
theorem unitsPerOne_eq {a b : Nat} (h : a + b = 1074) : unitsPerOne = 2 ^ a * 2 ^ b := by
  unfold unitsPerOne
  rw [← h]
  exact pow_add 2 a b

theorem unitsPerOne_pos : 0 < unitsPerOne := by
  unfold unitsPerOne
  apply Nat.two_pow_pos

section Units

variable {a e m k : Nat} (hae : a + e = 1074) (hm : m < 2 * mantissaBase) (hn : mantissaBase ≤ m)
include hae hm hn

theorem unitsOf_le_mul_unitsPerOne (hk : m ≤ k * 2 ^ a) :
    unitsOf (e * mantissaBase + m) ≤ k * unitsPerOne := by
  rw [unitsOf_mul_add hm fun _ => hn, unitsPerOne_eq hae, ← Nat.mul_assoc]
  exact Nat.mul_le_mul_right _ hk

theorem unitsOf_eq_mul_unitsPerOne (hk : m = k * 2 ^ a) :
    unitsOf (e * mantissaBase + m) = k * unitsPerOne := by
  rw [unitsOf_mul_add hm fun _ => hn, unitsPerOne_eq hae, ← Nat.mul_assoc, hk]

end Units

/-! ### Zero -/

theorem infinityRank_pos : 0 < infinityRank := Nat.mul_pos (by decide) mantissaBase_pos

theorem unitsOf_zero : unitsOf 0 = 0 := by simp [unitsOf, mantissaOf]

theorem nearest_zero {s : Bool} {d : Nat} (hd : 0 < d) : nearest s 0 d = zero s := by
  have hrank : nearestRank 0 d = 0 := Nat.le_zero.mp (nearestRank_le hd (Nat.zero_le _))
  simp [nearest, zero, hrank]

theorem zero_eq : (0 : Binary64) = .number false 0 (Nat.zero_le _) := by decide +kernel

theorem number_eq_zero_iff {s : Bool} {r : Nat} {hr : r ≤ infinityRank} :
    (number s r hr).eq 0 = true ↔ r = 0 := by
  rw [zero_eq]
  cases s <;> simp [Binary64.eq, place]

/-- Both zeros are equal to zero, and nothing else is. -/
theorem eq_zero_iff {x : Binary64} : x.eq 0 = true ↔ ∃ negative, x = zero negative := by
  cases x with
  | nan => simp [Binary64.eq, zero]
  | number s r hr => simp [number_eq_zero_iff, zero]

end EntityTable.Binary64
