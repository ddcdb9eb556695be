import EntityTable.Proofs.Binary64.Rounding

/-!
The order of numbers, where a NaN stands aside, and operations that never end in a NaN.
-/

namespace EntityTable.Binary64

variable {x y z : Binary64}

theorem isNaN_of_isFinite (h : x.isFinite = true) : x.isNaN = false := by
  cases x with
  | nan => cases h
  | number s r hr => rfl

/-! ### Order -/

theorem le_trans (hxy : x.le y = true) (hyz : y.le z = true) : x.le z = true := by
  cases x <;> cases y <;> cases z <;> simp only [le, Bool.false_eq_true, decide_eq_true_eq] at *
  omega

theorem le_of_not_lt (hx : x.isNaN = false) (hy : y.isNaN = false) (h : ¬x.lt y = true) :
    y.le x = true := by
  cases x <;> cases y <;> simp only [le, lt, isNaN, decide_eq_true_eq, reduceCtorEq] at *
  omega

theorem le_of_lt (h : x.lt y = true) : x.le y = true := by
  cases x <;> cases y <;> simp only [le, lt, decide_eq_true_eq, Bool.false_eq_true] at *
  omega

theorem le_refl (hx : x.isNaN = false) : x.le x = true := by
  cases x <;> simp [le, isNaN] at *

theorem min_cases (x y : Binary64) : x.min y = x ∨ x.min y = y := by
  unfold min
  split <;> simp

theorem max_cases (x y : Binary64) : x.max y = x ∨ x.max y = y := by
  unfold max
  split <;> simp

theorem le_min (hx : z.le x = true) (hy : z.le y = true) : z.le (x.min y) = true := by
  rcases min_cases x y with h | h <;> rwa [h]

theorem min_le_left (hx : x.isNaN = false) : (x.min y).le x = true := by
  unfold min
  split
  · next h => exact le_of_lt h
  · exact le_refl hx

theorem min_le_right (hx : x.isNaN = false) (hy : y.isNaN = false) : (x.min y).le y = true := by
  unfold min
  split
  · exact le_refl hy
  · next h => exact le_of_not_lt hy hx h

theorem le_max_left (hx : x.isNaN = false) : x.le (x.max y) = true := by
  unfold max
  split
  · next h => exact le_of_lt h
  · exact le_refl hx

theorem le_max_right (hx : x.isNaN = false) (hy : y.isNaN = false) : y.le (x.max y) = true := by
  unfold max
  split
  · exact le_refl hy
  · next h => exact le_of_not_lt hx hy h

/-- Of two numbers, the first unless it exceeds the second. -/
theorem min_eq_ite (hx : x.isNaN = false) (hy : y.isNaN = false) :
    x.min y = if x.le y then x else y := by
  by_cases hlt : y.lt x
  · have hle : ¬x.le y = true := by
      cases x <;> cases y <;> simp only [le, lt, decide_eq_true_eq, Bool.false_eq_true] at *
      omega
    rw [min, if_pos hlt, if_neg hle]
  · rw [min, if_neg hlt, if_pos (le_of_not_lt hy hx hlt)]

/-- The smaller of a number and a limit is not lowered by the same limit again. -/
theorem min_min (x y : Binary64) : (x.min y).min y = x.min y := by
  by_cases h : y.lt x = true
  · have hirrefl : y.lt y ≠ true := by cases y <;> simp [lt]
    simp [min, h, hirrefl]
  · simp [min, h]

theorem isFinite_number_iff {s : Bool} {r : Nat} {hr : r ≤ infinityRank} :
    (number s r hr).isFinite = true ↔
      -(infinityRank : Int) < place s r ∧ place s r < infinityRank := by
  cases s <;> simp only [isFinite, place, decide_eq_true_eq] <;> simp <;> omega

theorem isFinite_of_between (hx : x.isFinite = true) (hz : z.isFinite = true)
    (hxy : x.le y = true) (hyz : y.le z = true) : y.isFinite = true := by
  cases x with
  | nan => cases hx
  | number s r hr =>
    cases z with
    | nan => cases hz
    | number t q hq =>
      cases y with
      | nan => cases hxy
      | number u m hm =>
        have hlow := of_decide_eq_true hxy
        have hhigh := of_decide_eq_true hyz
        rw [isFinite_number_iff] at hx hz ⊢
        omega

theorem min_isFinite (hx : x.isFinite = true) (hy : y.isFinite = true) :
    (x.min y).isFinite = true := by
  rcases min_cases x y with h | h <;> rwa [h]

theorem max_isFinite (hx : x.isFinite = true) (hy : y.isFinite = true) :
    (x.max y).isFinite = true := by
  rcases max_cases x y with h | h <;> rwa [h]

/-! ### Arithmetic without NaN -/

theorem isNaN_add (hx : x.isFinite = true) (hy : y.isNaN = false) : (x + y).isNaN = false := by
  show (add x y).isNaN = false
  cases x with
  | nan => cases hx
  | number s r hr =>
    cases y with
    | nan => cases hy
    | number t q hq =>
      have hne : r ≠ infinityRank := Nat.ne_of_lt (of_decide_eq_true hx)
      rw [add, if_neg hne]
      split
      · rfl
      · dsimp only
        split <;> rfl

theorem isNaN_sub (hx : x.isFinite = true) (hy : y.isNaN = false) : (x - y).isNaN = false := by
  refine isNaN_add hx ?_
  cases y with
  | nan => cases hy
  | number t q hq => rfl

section Scales

/-- Neither zero nor infinite nor a NaN. -/
def IsScale (x : Binary64) : Prop := x.isFinite = true ∧ x.eq 0 = false

instance (x : Binary64) : Decidable (IsScale x) := inferInstanceAs (Decidable (_ ∧ _))

theorem IsScale.rank_ne_zero {s : Bool} {r : Nat} {hr : r ≤ infinityRank}
    (h : IsScale (.number s r hr)) : r ≠ 0 := by
  intro hr0
  exact absurd (number_eq_zero_iff.mpr hr0) (ne_true_of_eq_false h.2)

theorem isNaN_mul (hx : x.isNaN = false) (hy : IsScale y) : (x * y).isNaN = false := by
  show (mul x y).isNaN = false
  cases x with
  | nan => cases hx
  | number s r hr =>
    cases y with
    | nan => cases hy.1
    | number t q hq =>
      have hq0 := hy.rank_ne_zero
      have hlt : q < infinityRank := of_decide_eq_true hy.1
      rw [mul]
      split
      · next hinf =>
        have hr0 : r ≠ 0 := by have := infinityRank_pos; omega
        rw [if_neg (by omega)]
        rfl
      · rfl

theorem isNaN_div (hx : x.isNaN = false) (hy : IsScale y) : (x / y).isNaN = false := by
  show (div x y).isNaN = false
  cases x with
  | nan => cases hx
  | number s r hr =>
    cases y with
    | nan => cases hy.1
    | number t q hq =>
      have hq0 := hy.rank_ne_zero
      have hlt : q ≠ infinityRank := Nat.ne_of_lt (of_decide_eq_true hy.1)
      rw [div, if_neg hlt, if_neg hlt, if_neg hq0]
      split <;> rfl

end Scales

end EntityTable.Binary64
