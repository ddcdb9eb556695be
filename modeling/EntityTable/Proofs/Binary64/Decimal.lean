import EntityTable.Binary64.Decimal
import EntityTable.Proofs.Binary64.Rounding

/-!
Decimals as numbers. What a decimal is rounded to depends on its value alone, not on how it is
split into digits and an exponent, and the shortest decimal of a magnitude reads back as it.
-/

namespace EntityTable

namespace Binary64

/-! ### Quotients of one value -/

theorem roundHalfEven_mul_right (n d : Nat) {k : Nat} (hk : 0 < k) :
    roundHalfEven (n * k) (d * k) = roundHalfEven n d := by
  have hbelow (r : Nat) : 2 * (r * k) < d * k ↔ 2 * r < d := by
    rw [← Nat.mul_assoc, Nat.mul_lt_mul_right hk]
  have habove (r : Nat) : d * k < 2 * (r * k) ↔ d < 2 * r := by
    rw [← Nat.mul_assoc, Nat.mul_lt_mul_right hk]
  simp only [roundHalfEven, Nat.mul_div_mul_right _ _ hk, Nat.mul_mod_mul_right, hbelow, habove]

theorem nearestRank_mul_right (n d : Nat) {k : Nat} (hk : 0 < k) :
    nearestRank (n * k) (d * k) = nearestRank n d := by
  rw [nearestRank_eq, nearestRank_eq, Nat.mul_div_mul_right _ _ hk, Nat.mul_right_comm d k,
    roundHalfEven_mul_right _ _ hk]

theorem nearestRank_congr {n d n' d' : Nat} (hd : 0 < d) (hd' : 0 < d') (h : n * d' = n' * d) :
    nearestRank n d = nearestRank n' d' := by
  rw [← nearestRank_mul_right n d hd', h, Nat.mul_comm d d', nearestRank_mul_right n' d' hd]

/-- Less than half a unit is rounded away. -/
theorem nearestRank_eq_zero {n d : Nat} (h : 2 * n < d) : nearestRank n d = 0 := by
  have hquotient : n / d = 0 := Nat.div_eq_of_lt (by omega)
  have hexponent : roundingExponent 0 = 0 := rfl
  have hmod : n % d = n := Nat.mod_eq_of_lt (by omega)
  rw [nearestRank_eq, hquotient, hexponent, pow_zero, Nat.mul_one, roundHalfEven, hquotient, hmod,
    if_pos h]
  rfl

/-- The exponent of the units in one, under a name that keeps the power from being computed. -/
theorem exists_unitsPerOne : ∃ places, places = 1074 ∧ unitsPerOne = 2 ^ places := by
  refine ⟨_, rfl, ?_⟩
  unfold unitsPerOne
  generalize 1074 = places
  rfl

theorem unitsOf_infinityRank {places : Nat} (h : places = 1074) :
    unitsOf infinityRank = 2 ^ (places + 1024) := by
  have hbase := mantissaBase_pos
  have hsplit : infinityRank = (places + 972) * mantissaBase + mantissaBase := by
    rw [infinityRank, h]
    ring
  have hsum : 52 + (places + 972) = places + 1024 := by omega
  rw [hsplit, unitsOf_mul_add (by omega) fun _ => Nat.le_refl _, mantissaBase_eq, ← pow_add, hsum]

theorem two_pow_le_two_pow {m n : Nat} (h : m ≤ n) : 2 ^ m ≤ 2 ^ n :=
  Nat.pow_le_pow_right (by decide) h

theorem two_pow_le_ten_pow (n : Nat) : 2 ^ (3 * n) ≤ 10 ^ n := by
  rw [pow_mul]
  exact Nat.pow_le_pow_left (by decide) n

/-! ### Decimals -/

/-- Any digits in front of that many zeros are past the greatest magnitude. -/
theorem nearestRank_eq_infinityRank {digits zeros : Nat} (h : 0 < digits)
    (hreach : decimalReach < zeros) :
    nearestRank (digits * 10 ^ zeros * unitsPerOne) 1 = infinityRank := by
  obtain ⟨places, hplaces, hunits⟩ := exists_unitsPerOne
  have hzeros : 401 ≤ zeros := hreach
  have hbound : 2 ^ (places + 1024) ≤ digits * 10 ^ zeros * unitsPerOne := by
    calc 2 ^ (places + 1024) ≤ 2 ^ (3 * zeros) * 2 ^ places := by
          rw [← pow_add]
          exact two_pow_le_two_pow (by omega)
      _ ≤ 10 ^ zeros * unitsPerOne := by
          rw [hunits]
          exact Nat.mul_le_mul_right _ (two_pow_le_ten_pow _)
      _ ≤ digits * 10 ^ zeros * unitsPerOne := by
          rw [Nat.mul_assoc]
          exact Nat.le_mul_of_pos_left _ h
  apply Nat.le_antisymm (Nat.min_le_right _ _)
  apply le_nearestRank Nat.one_pos (Nat.le_refl _)
  rw [unitsOf_infinityRank hplaces, Nat.mul_one]
  exact hbound

/-- Digits that far behind the point are less than half a unit. -/
theorem nearestRank_eq_zero_of_reach {digits places : Nat}
    (hreach : decimalReach + digits.log2 < places) :
    nearestRank (digits * unitsPerOne) (10 ^ places) = 0 := by
  obtain ⟨units, hvalue, hunits⟩ := exists_unitsPerOne
  have hplaces : 401 + digits.log2 ≤ places := by
    simp only [decimalReach] at hreach
    omega
  apply nearestRank_eq_zero
  calc 2 * (digits * unitsPerOne) < 2 * (2 ^ (digits.log2 + 1) * 2 ^ units) := by
        have hlog : digits < 2 ^ (digits.log2 + 1) := Nat.lt_log2_self
        have hscaled := Nat.mul_lt_mul_of_pos_right hlog (Nat.two_pow_pos units)
        rw [hunits]
        omega
    _ = 2 ^ (digits.log2 + 1 + units + 1) := by
        rw [← pow_add, ← pow_succ']
    _ ≤ 2 ^ (3 * places) := two_pow_le_two_pow (by omega)
    _ ≤ 10 ^ places := two_pow_le_ten_pow _

/-- The bounds past which a decimal is not computed do not change what it is rounded to. -/
theorem ofDecimal_eq (negative : Bool) {digits : Nat} (h : 0 < digits) (exponent : Int) :
    ofDecimal negative digits exponent =
      nearest negative (digits * 10 ^ exponent.toNat * unitsPerOne) (10 ^ (-exponent).toNat) := by
  have hden (hpos : 0 ≤ exponent) : (10 : Nat) ^ (-exponent).toNat = 1 := by
    rw [show (-exponent).toNat = 0 by omega, pow_zero]
  have hnum (hneg : exponent < 0) : digits * 10 ^ exponent.toNat = digits := by
    rw [show exponent.toNat = 0 by omega, pow_zero, Nat.mul_one]
  unfold ofDecimal
  rw [if_neg (by omega)]
  split
  · next hlarge =>
    have hreach : decimalReach < exponent.toNat := by omega
    have hrank := nearestRank_eq_infinityRank h hreach
    rw [hden (by omega)]
    simp only [nearest, infinity, hrank]
  · split
    · next hsmall =>
      have hreach : decimalReach + digits.log2 < (-exponent).toNat := by omega
      have hrank := nearestRank_eq_zero_of_reach hreach
      rw [hnum (by omega)]
      simp only [nearest, zero, hrank]
    · split
      · next hpos =>
        rw [hden hpos]
        rfl
      · next hneg =>
        rw [hnum (by omega)]
        rfl

/-- Zeros may move between the digits and the exponent. -/
theorem ofDecimal_scale (negative : Bool) (digits k : Nat) (exponent : Int) :
    ofDecimal negative (digits * 10 ^ k) (exponent - k) = ofDecimal negative digits exponent := by
  rcases Nat.eq_zero_or_pos digits with rfl | hpos
  · simp [ofDecimal]
  · have hten (n : Nat) : 0 < 10 ^ n := Nat.pow_pos (by decide)
    rw [ofDecimal_eq _ hpos, ofDecimal_eq _ (Nat.mul_pos hpos (hten k))]
    have hpowers : 10 ^ k * 10 ^ (exponent - k).toNat * 10 ^ (-exponent).toNat =
        10 ^ exponent.toNat * 10 ^ (-(exponent - k)).toNat := by
      rw [← pow_add, ← pow_add, ← pow_add]
      congr 1
      omega
    have hrank : nearestRank (digits * 10 ^ k * 10 ^ (exponent - k).toNat * unitsPerOne)
        (10 ^ (-(exponent - k)).toNat) =
          nearestRank (digits * 10 ^ exponent.toNat * unitsPerOne) (10 ^ (-exponent).toNat) := by
      apply nearestRank_congr (hten _) (hten _)
      calc digits * 10 ^ k * 10 ^ (exponent - k).toNat * unitsPerOne * 10 ^ (-exponent).toNat
          = digits * unitsPerOne *
              (10 ^ k * 10 ^ (exponent - k).toNat * 10 ^ (-exponent).toNat) := by ring
        _ = digits * unitsPerOne * (10 ^ exponent.toNat * 10 ^ (-(exponent - k)).toNat) := by
            rw [hpowers]
        _ = digits * 10 ^ exponent.toNat * unitsPerOne * 10 ^ (-(exponent - k)).toNat := by ring
    simp only [nearest, hrank]

end Binary64

namespace Decimal

open Binary64

theorem rank_eq (d : Decimal) (h : 0 < d.digits) :
    d.rank = nearestRank (d.digits * 10 ^ d.exponent.toNat * unitsPerOne)
      (10 ^ (-d.exponent).toNat) := by
  rw [rank, ofDecimal_eq false h]
  rfl

theorem rank_of_digits_eq_zero {d : Decimal} (h : d.digits = 0) : d.rank = 0 := by
  simp [rank, ofDecimal, h, zero]

theorem exactDigits_eq {places : Nat} (h : places = exactPlaces) (rank : Nat) :
    exactDigits rank = unitsOf rank * 5 ^ places := by
  rw [exactDigits, ← h]
  rfl

/-- The exact value of a magnitude reads back as it. -/
theorem rank_exact {rank : Nat} (hpos : 0 < rank) (hr : rank ≤ infinityRank) :
    (Decimal.mk (exactDigits rank) (-exactPlaces)).rank = rank := by
  have hunits : 0 < unitsOf rank := by
    by_contra hzero
    have hle := nearestRank_unitsOf Nat.one_pos hr
    rw [Nat.eq_zero_of_not_pos hzero, Nat.zero_mul, nearestRank_eq_zero (by decide)] at hle
    omega
  obtain ⟨places, hplaces, hone⟩ := exists_unitsPerOne
  have hdigits : 0 < exactDigits rank := by
    rw [exactDigits_eq hplaces]
    exact Nat.mul_pos hunits (Nat.pow_pos (by decide))
  have hten : 10 ^ places = 5 ^ places * unitsPerOne := by
    rw [hone, ← mul_pow]
    rfl
  have hnumerator : (-(places : Int)).toNat = 0 := by omega
  have hdenominator : (- -(places : Int)).toNat = places := by omega
  rw [rank_eq ⟨exactDigits rank, -exactPlaces⟩ hdigits]
  simp only [exactDigits_eq hplaces, show exactPlaces = places from hplaces.symm, hnumerator,
    hdenominator, pow_zero, Nat.mul_one, Nat.mul_assoc, ← hten]
  exact nearestRank_unitsOf (Nat.pow_pos (by decide)) hr

theorem rank_shortest {rank : Nat} (hpos : 0 < rank) (hr : rank ≤ infinityRank) :
    (shortest rank).rank = rank := by
  unfold shortest
  dsimp only
  cases hfound : (List.range 17).findSome? fun p => (neighbours (exactDigits rank)
      (digitCount (exactDigits rank) - (p + 1))).find? fun d => d.rank = rank with
  | none => exact rank_exact hpos hr
  | some d =>
    obtain ⟨p, -, hd⟩ := List.exists_of_findSome?_eq_some hfound
    simpa using List.find?_some hd

theorem digits_shortest_pos {rank : Nat} (hpos : 0 < rank) (hr : rank ≤ infinityRank) :
    0 < (shortest rank).digits := by
  by_contra hzero
  have hrank := rank_shortest hpos hr
  rw [rank_of_digits_eq_zero (Nat.eq_zero_of_not_pos hzero)] at hrank
  omega

/-- The shortest decimal of a magnitude reads back as the number, with either sign. -/
theorem ofDecimal_shortest (negative : Bool) {rank : Nat} (hpos : 0 < rank)
    (hr : rank ≤ infinityRank) :
    ofDecimal negative (shortest rank).digits (shortest rank).exponent =
      .number negative rank hr := by
  have hdigits := digits_shortest_pos hpos hr
  have hrank := rank_eq _ hdigits
  rw [rank_shortest hpos hr] at hrank
  rw [ofDecimal_eq negative hdigits]
  simp only [nearest, ← hrank]

end Decimal
end EntityTable
