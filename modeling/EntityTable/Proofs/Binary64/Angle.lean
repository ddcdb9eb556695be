import EntityTable.Mount
import EntityTable.Proofs.Binary64.Rounding

/-!
Turning angles from degrees to radians, again and again. The result of one turn is small enough for
the next one to stay finite, however often the angle is turned.
-/

namespace EntityTable

namespace Binary64

/-- The magnitude is one of those up to a rank. -/
def Within (rank : Nat) : Binary64 → Prop
  | .nan => False
  | .number _ r _ => r ≤ rank

theorem Within.isFinite {rank : Nat} {x : Binary64} (h : x.Within rank) (hr : rank < infinityRank) :
    x.isFinite = true := by
  cases x with
  | nan => cases h
  | number s r hle => exact decide_eq_true (Nat.lt_of_le_of_lt h hr)

theorem isFinite_nearest_iff {s : Bool} {n d : Nat} :
    (nearest s n d).isFinite = true ↔ nearestRank n d < infinityRank := decide_eq_true_iff

theorem isFinite_nearest {s : Bool} {n d rank : Nat} (h : nearestRank n d ≤ rank)
    (hr : rank < infinityRank) : (nearest s n d).isFinite = true :=
  isFinite_nearest_iff.mpr (Nat.lt_of_le_of_lt h hr)

/-! ### A half turn in degrees and in radians -/

def halfTurnRank : Nat := 1029 * mantissaBase + 180 * 2 ^ 45

theorem halfTurn_eq : (180 : Binary64) = .number false halfTurnRank (by decide) := by
  decide +kernel

theorem halfTurn_units_pos : 0 < 180 * unitsPerOne := Nat.mul_pos (by decide) unitsPerOne_pos

theorem unitsOf_halfTurnRank : unitsOf halfTurnRank = 180 * unitsPerOne :=
  unitsOf_eq_mul_unitsPerOne (show 45 + 1029 = 1074 from rfl) (by decide) (by decide) rfl

def piRank : Nat := 1023 * mantissaBase + 7074237752028440

theorem pi_eq : pi = .number false piRank (by decide) := by decide +kernel

theorem unitsOf_piRank_le : unitsOf piRank ≤ 2 ^ 2 * unitsPerOne :=
  unitsOf_le_mul_unitsPerOne (show 51 + 1023 = 1074 from rfl) (by decide) (by decide) (by decide)

/-! ### Turning -/

section Turning

variable {s : Bool} {r : Nat} {hr : r ≤ infinityRank}

theorem mul_pi (h : r < infinityRank) : Binary64.number s r hr * pi =
    nearest s (unitsOf r * unitsOf piRank) unitsPerOne := by
  have hpi : ¬(r = infinityRank ∨ piRank = infinityRank) := by
    have hlt : piRank ≠ infinityRank := by decide
    omega
  rw [pi_eq]
  show mul _ _ = _
  rw [mul, if_neg hpi, Bool.bne_false]

theorem div_halfTurn (h : r < infinityRank) : Binary64.number s r hr / 180 =
    nearest s (unitsOf r * unitsPerOne) (180 * unitsPerOne) := by
  have hlt : halfTurnRank ≠ infinityRank := by decide
  have hpos : halfTurnRank ≠ 0 := by decide
  rw [halfTurn_eq]
  show div _ _ = _
  rw [div, if_neg (Nat.ne_of_lt h), if_neg hlt, if_neg hpos, Bool.bne_false, unitsOf_halfTurnRank]

end Turning

end Binary64

open Binary64

/-- Angles that have been turned are of this rank at most, which is that of `2 ^ 965`. -/
def turnedRank : Nat := (2039 + 1) * mantissaBase

theorem turnedRank_lt : turnedRank < infinityRank :=
  Nat.mul_lt_mul_of_pos_right (by decide) mantissaBase_pos

theorem div_halfTurn_within {x : Binary64} (h : x.isFinite = true) :
    (x / 180).Within turnedRank := by
  cases x with
  | nan => cases h
  | number s r hr =>
    have hlt : r < infinityRank := of_decide_eq_true h
    have hunits : unitsOf r ≤ unitsOf turnedRank * 180 := by
      calc unitsOf r ≤ unitsOf infinityRank := unitsOf_le (Nat.le_refl _) hr
        _ = unitsOf turnedRank * 2 ^ 7 := unitsOf_binade_add (a := 7) (b := 2039) rfl rfl
        _ ≤ unitsOf turnedRank * 180 := Nat.mul_le_mul_left _ (by decide)
    rw [div_halfTurn hlt]
    refine nearestRank_le halfTurn_units_pos ?_
    calc unitsOf r * unitsPerOne ≤ unitsOf turnedRank * 180 * unitsPerOne :=
          Nat.mul_le_mul_right _ hunits
      _ = unitsOf turnedRank * (180 * unitsPerOne) := Nat.mul_assoc _ _ _

/-- Four times an angle that has been turned is of this rank at most. -/
def stretchedRank : Nat := (2039 + 2 + 1) * mantissaBase

theorem stretchedRank_lt : stretchedRank < infinityRank :=
  Nat.mul_lt_mul_of_pos_right (by decide) mantissaBase_pos

theorem mul_pi_isFinite {x : Binary64} (h : x.Within turnedRank) : (x * pi).isFinite = true := by
  cases x with
  | nan => cases h
  | number s r hr =>
    have hbinade : unitsOf stretchedRank = unitsOf turnedRank * 2 ^ 2 :=
      unitsOf_binade_add (a := 2) (b := 2039) rfl rfl
    have hunits : unitsOf r * 2 ^ 2 ≤ unitsOf stretchedRank := by
      calc unitsOf r * 2 ^ 2 ≤ unitsOf turnedRank * 2 ^ 2 :=
            Nat.mul_le_mul_right _ (unitsOf_le (Nat.le_of_lt turnedRank_lt) h)
        _ = unitsOf stretchedRank := hbinade.symm
    rw [mul_pi (Nat.lt_of_le_of_lt h turnedRank_lt)]
    refine isFinite_nearest (nearestRank_le unitsPerOne_pos ?_) stretchedRank_lt
    calc unitsOf r * unitsOf piRank ≤ unitsOf r * (2 ^ 2 * unitsPerOne) :=
          Nat.mul_le_mul_left _ unitsOf_piRank_le
      _ = unitsOf r * 2 ^ 2 * unitsPerOne := (Nat.mul_assoc _ _ _).symm
      _ ≤ unitsOf stretchedRank * unitsPerOne := Nat.mul_le_mul_right _ hunits

/-- What has been turned can be turned again. -/
theorem degreesToRadians_within {x : Binary64} (h : x.Within turnedRank) :
    (degreesToRadians x).Within turnedRank := div_halfTurn_within (mul_pi_isFinite h)

/-- An infinite product would stay infinite. -/
theorem mul_pi_isFinite_of_degreesToRadians {x : Binary64}
    (h : (degreesToRadians x).isFinite = true) : (x * pi).isFinite = true := by
  rw [degreesToRadians] at h
  cases hp : x * pi with
  | nan =>
    rw [hp] at h
    cases h
  | number s r hr =>
    by_cases hlt : r < infinityRank
    · exact decide_eq_true hlt
    · obtain rfl : r = infinityRank := by omega
      have hhalf : halfTurnRank ≠ infinityRank := by decide
      rw [hp, halfTurn_eq] at h
      change (div _ _).isFinite = true at h
      rw [div, if_pos rfl, if_neg hhalf] at h
      simp [infinity, isFinite] at h

/-- If a turn ends in a finite angle, it can be turned further. -/
theorem degreesToRadians_within_of_isFinite {x : Binary64}
    (h : (degreesToRadians x).isFinite = true) : (degreesToRadians x).Within turnedRank :=
  div_halfTurn_within (mul_pi_isFinite_of_degreesToRadians h)

/-! ### Angles too great to be turned -/

/-- The rank of the greatest angle whose product with π is finite, about `5.7e307` degrees. -/
def turnableRank : Nat := 2045 * mantissaBase + 1230561511852162

theorem turnableRank_lt : turnableRank < infinityRank := by decide

theorem turnable_mul_pi_le :
    unitsOf turnableRank * unitsOf piRank ≤ unitsOf (infinityRank - 1) * unitsPerOne := by
  decide +kernel

theorem infinity_le_mul_pi :
    unitsOf infinityRank * unitsPerOne ≤ unitsOf (turnableRank + 1) * unitsOf piRank := by
  decide +kernel

theorem mul_pi_isFinite_iff {x : Binary64} (hx : x.isFinite = true) :
    (x * pi).isFinite = true ↔ x.Within turnableRank := by
  cases x with
  | nan => cases hx
  | number s r hr =>
    have hlt : r < infinityRank := of_decide_eq_true hx
    rw [mul_pi hlt, isFinite_nearest_iff]
    constructor
    · intro hfinite
      by_contra hgreat
      have hnext : turnableRank + 1 ≤ r := Nat.lt_of_not_le hgreat
      have hinfinite : infinityRank ≤ nearestRank (unitsOf r * unitsOf piRank) unitsPerOne := by
        apply le_nearestRank unitsPerOne_pos (Nat.le_refl _)
        calc unitsOf infinityRank * unitsPerOne ≤ unitsOf (turnableRank + 1) * unitsOf piRank :=
              infinity_le_mul_pi
          _ ≤ unitsOf r * unitsOf piRank := Nat.mul_le_mul_right _ (unitsOf_le hr hnext)
      omega
    · intro h
      have hrank : r ≤ turnableRank := h
      have hlast : infinityRank - 1 < infinityRank := Nat.sub_lt infinityRank_pos Nat.one_pos
      refine Nat.lt_of_le_of_lt (nearestRank_le unitsPerOne_pos ?_) hlast
      calc unitsOf r * unitsOf piRank ≤ unitsOf turnableRank * unitsOf piRank :=
            Nat.mul_le_mul_right _ (unitsOf_le (Nat.le_of_lt turnableRank_lt) hrank)
        _ ≤ unitsOf (infinityRank - 1) * unitsPerOne := turnable_mul_pi_le

/-- A finite angle is turned into a finite one exactly if its product with π is finite. -/
theorem degreesToRadians_isFinite_iff {x : Binary64} (hx : x.isFinite = true) :
    (degreesToRadians x).isFinite = true ↔ x.Within turnableRank := by
  rw [← mul_pi_isFinite_iff hx]
  constructor
  · exact mul_pi_isFinite_of_degreesToRadians
  · intro h
    exact (div_halfTurn_within h).isFinite turnedRank_lt

/-- Zero stays as it is, with its sign. -/
theorem degreesToRadians_zero {x : Binary64} (h : x.eq 0 = true) : degreesToRadians x = x := by
  obtain ⟨s, rfl⟩ := eq_zero_iff.mp h
  have hmul : zero s * pi = zero s := by
    rw [zero, mul_pi infinityRank_pos, unitsOf_zero, Nat.zero_mul, nearest_zero unitsPerOne_pos,
      zero]
  rw [degreesToRadians, hmul, zero, div_halfTurn infinityRank_pos, unitsOf_zero, Nat.zero_mul,
    nearest_zero halfTurn_units_pos, zero]

theorem opposite_within {rank : Nat} {x : Binary64} (h : x.Within rank) :
    x.opposite.Within rank := by
  unfold Binary64.opposite
  split
  · rw [zero_eq]
    exact Nat.zero_le rank
  · cases x with
    | nan => cases h
    | number s r hle => exact h

theorem opposite_isFinite_iff {x : Binary64} :
    x.opposite.isFinite = true ↔ x.isFinite = true := by
  unfold Binary64.opposite
  split
  · next h =>
    obtain ⟨s, rfl⟩ := eq_zero_iff.mp h
    rw [zero_eq]
    exact Iff.rfl
  · cases x with
    | nan => exact Iff.rfl
    | number s r hr => exact Iff.rfl

end EntityTable
