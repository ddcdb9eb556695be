import EntityTable.Proofs.Binary64.Order

/-!
Arithmetic keeps the order of numbers. Rounding does, from zero to infinity, and so does every
operation with its other argument fixed, as long as that one is finite and no factor is negative.
-/

namespace EntityTable.Binary64

variable {x y z c : Binary64}

/-! ### Rounding -/

theorem roundHalfEven_mono {n n' d : Nat} (hd : 0 < d) (h : n ≤ n') :
    roundHalfEven n d ≤ roundHalfEven n' d := by
  have hdiv := Nat.div_add_mod n d
  have hdiv' := Nat.div_add_mod n' d
  have hmod := Nat.mod_lt n hd
  have hquotient : n / d ≤ n' / d := Nat.div_le_div_right h
  rcases Nat.eq_or_lt_of_le hquotient with heq | hlt
  · have hremainder : n % d ≤ n' % d := by
      rw [heq] at hdiv
      omega
    unfold roundHalfEven
    rw [heq]
    dsimp only
    split_ifs <;> omega
  · have hnext : n ≤ (n / d + 1) * d := (Nat.lt_mul_of_div_lt (Nat.lt_succ_self _) hd).le
    calc roundHalfEven n d ≤ n / d + 1 := roundHalfEven_le hd hnext
      _ ≤ n' / d := hlt
      _ ≤ roundHalfEven n' d := le_roundHalfEven hd (Nat.div_mul_le_self n' d)

theorem roundingExponent_mono {q q' : Nat} (h : q ≤ q') :
    roundingExponent q ≤ roundingExponent q' := by
  by_contra hlt
  have hgt : roundingExponent q' < roundingExponent q := Nat.lt_of_not_le hlt
  have hbelow := lt_of_roundingExponent q'
  have habove := le_of_roundingExponent_pos (Nat.zero_lt_of_lt hgt)
  have hdouble := double_mul_two_pow_le hgt
  omega

/-- A quotient that is not smaller has no smaller rank. -/
theorem nearestRank_mono {n n' d : Nat} (hd : 0 < d) (h : n ≤ n') :
    nearestRank n d ≤ nearestRank n' d := by
  have hround := roundHalfEven_le_double (n := n) hd
  have hround' := @mantissaBase_le_roundHalfEven n' d hd
  have hexponent := roundingExponent_mono (Nat.div_le_div_right h : n / d ≤ n' / d)
  rw [nearestRank_eq, nearestRank_eq]
  generalize roundingExponent (n / d) = e at hround hexponent ⊢
  generalize roundingExponent (n' / d) = e' at hround' hexponent ⊢
  refine Nat.le_min.mpr ⟨(Nat.min_le_left _ _).trans ?_, Nat.min_le_right _ _⟩
  rcases Nat.eq_or_lt_of_le hexponent with rfl | hlt
  · have hscale : 0 < d * 2 ^ e := Nat.mul_pos hd (Nat.two_pow_pos e)
    exact Nat.add_le_add_left (roundHalfEven_mono hscale h) _
  · -- the first rank of the greater one's binade lies between the two
    have hfirst := hround' (by omega)
    have hnext : (e + 1) * mantissaBase ≤ e' * mantissaBase := Nat.mul_le_mul_right _ hlt
    rw [Nat.succ_mul] at hnext
    omega

theorem unitsOf_pos {rank : Nat} (hpos : 0 < rank) (hr : rank ≤ infinityRank) :
    0 < unitsOf rank := by
  by_contra hzero
  have hrank := nearestRank_unitsOf Nat.one_pos hr
  rw [Nat.eq_zero_of_not_pos hzero, ← unitsOf_zero,
    nearestRank_unitsOf Nat.one_pos (Nat.zero_le _)] at hrank
  omega

/-! ### Signed ranks -/

/-- What keeps the order of magnitudes, and zero, keeps the order of signed ones. -/
theorem place_map {f : Nat → Nat} (hzero : f 0 = 0)
    (hmono : ∀ {r q}, r ≤ q → q ≤ infinityRank → f r ≤ f q) {s t : Bool} {r q : Nat}
    (hr : r ≤ infinityRank) (hq : q ≤ infinityRank) (h : place s r ≤ place t q) :
    place s (f r) ≤ place t (f q) := by
  cases s <;> cases t <;> simp only [place, if_true, Bool.false_eq_true, if_false] at h ⊢
  case false.false => exact Int.ofNat_le.mpr (hmono (Int.ofNat_le.mp h) hq)
  case false.true =>
    obtain ⟨rfl, rfl⟩ : r = 0 ∧ q = 0 := by omega
    simp [hzero]
  case true.false => omega
  case true.true =>
    have hle := hmono (show q ≤ r by omega) hr
    omega

theorem signedUnits_le {s t : Bool} {r q : Nat} (hr : r ≤ infinityRank) (hq : q ≤ infinityRank)
    (h : place s r ≤ place t q) : signedUnits s r ≤ signedUnits t q :=
  place_map unitsOf_zero (fun hle hq => unitsOf_le hq hle) hr hq h

/-- The place of the number nearest to a number of units. -/
def roundedPlace (units : Int) : Int := place (units < 0) (nearestRank units.natAbs 1)

theorem roundedPlace_mono {i j : Int} (h : i ≤ j) : roundedPlace i ≤ roundedPlace j := by
  unfold roundedPlace place
  by_cases hi : i < 0 <;> by_cases hj : j < 0 <;> simp only [hi, hj, decide_true, decide_false,
    if_true, Bool.false_eq_true, if_false]
  · have hle := nearestRank_mono Nat.one_pos (show j.natAbs ≤ i.natAbs by omega)
    omega
  · omega
  · omega
  · have hle := nearestRank_mono Nat.one_pos (show i.natAbs ≤ j.natAbs by omega)
    omega

theorem roundedPlace_between (units : Int) :
    -(infinityRank : Int) ≤ roundedPlace units ∧ roundedPlace units ≤ infinityRank := by
  have hle : nearestRank units.natAbs 1 ≤ infinityRank := Nat.min_le_right _ _
  unfold roundedPlace place
  split <;> omega

theorem roundedPlace_zero : roundedPlace 0 = 0 := by
  have hrank : nearestRank 0 1 = 0 := Nat.le_zero.mp (nearestRank_le Nat.one_pos (Nat.zero_le _))
  simp [roundedPlace, place, hrank]

theorem roundedPlace_signedUnits {s : Bool} {r : Nat} (hr : r ≤ infinityRank) :
    roundedPlace (signedUnits s r) = place s r := by
  rcases Nat.eq_zero_or_pos r with rfl | hpos
  · cases s <;> simp [signedUnits, place, unitsOf_zero, roundedPlace_zero]
  · have hunits := unitsOf_pos hpos hr
    have hrank : nearestRank (unitsOf r) 1 = r := by
      rw [← Nat.mul_one (unitsOf r)]
      exact nearestRank_unitsOf Nat.one_pos hr
    cases s with
    | false =>
      have hsign : ¬(unitsOf r : Int) < 0 := by omega
      simp [roundedPlace, signedUnits, place, hsign, hrank]
    | true =>
      have hsign : -(unitsOf r : Int) < 0 := by omega
      simp only [roundedPlace, signedUnits, place, if_true, Int.natAbs_neg, Int.natAbs_natCast,
        hsign, decide_true, hrank]

theorem place_between (s : Bool) (r : Nat) : -(r : Int) ≤ place s r ∧ place s r ≤ r := by
  cases s <;> simp only [place, if_true, Bool.false_eq_true, if_false] <;> omega

theorem place_infinite (s : Bool) {r : Nat} (h : r = infinityRank) :
    place s r = infinityRank ∨ place s r = -(infinityRank : Int) := by
  cases s <;> simp [place, h]

/-! ### Sums -/

section Sums

variable {r q : Nat}

/-- A sum of finite numbers is their exact sum, rounded. -/
theorem exists_add_eq (s t : Bool) (hr : r ≤ infinityRank) (hq : q ≤ infinityRank)
    (hrf : r < infinityRank) (hqf : q < infinityRank) :
    ∃ u m hm, number s r hr + number t q hq = number u m hm ∧
      place u m = roundedPlace (signedUnits s r + signedUnits t q) := by
  have hsum : number s r hr + number t q hq =
      if signedUnits s r + signedUnits t q = 0 then zero (s && t)
      else nearest (signedUnits s r + signedUnits t q < 0)
        (signedUnits s r + signedUnits t q).natAbs 1 := by
    show add _ _ = _
    rw [add, if_neg (Nat.ne_of_lt hrf), if_neg (Nat.ne_of_lt hqf)]
  rw [hsum]
  split
  · next hzero =>
    refine ⟨s && t, 0, Nat.zero_le _, rfl, ?_⟩
    rw [hzero, roundedPlace_zero]
    cases s && t <;> rfl
  · exact ⟨_, _, Nat.min_le_right _ _, rfl, rfl⟩

theorem add_infinite {s t : Bool} {hr : r ≤ infinityRank} {hq : q ≤ infinityRank}
    (hrf : r < infinityRank) (hinf : q = infinityRank) :
    number s r hr + number t q hq = number t q hq := by
  show add _ _ = _
  rw [add, if_neg (Nat.ne_of_lt hrf), if_pos hinf]

end Sums

theorem add_comm (x y : Binary64) : x + y = y + x := by
  show add x y = add y x
  cases x with
  | nan => cases y <;> rfl
  | number s r hr =>
    cases y with
    | nan => rfl
    | number t q hq =>
      simp only [add]
      by_cases hri : r = infinityRank <;> by_cases hqi : q = infinityRank
      · by_cases hst : s = t
        · simp [hri, hqi, hst]
        · simp [hri, hqi, hst, Ne.symm hst]
      · simp [hri, hqi]
      · simp [hri, hqi]
      · simp only [hri, hqi, if_false, Int.add_comm (signedUnits t q), Bool.and_comm t]

theorem add_le_add_left (hc : c.isFinite = true) (h : x.le y = true) :
    (c + x).le (c + y) = true := by
  cases c with
  | nan => cases hc
  | number s r hr =>
    cases x with
    | nan => cases h
    | number t q hq =>
      cases y with
      | nan => cases h
      | number u m hm =>
        have hrf : r < infinityRank := of_decide_eq_true hc
        have hplace : place t q ≤ place u m := of_decide_eq_true h
        have hlow := roundedPlace_between (signedUnits s r + signedUnits t q)
        have hhigh := roundedPlace_between (signedUnits s r + signedUnits u m)
        rcases Nat.lt_or_eq_of_le hq with hqf | hqi <;> rcases Nat.lt_or_eq_of_le hm with hmf | hmi
        · obtain ⟨a, i, hi, hx, hxplace⟩ := exists_add_eq s t hr hq hrf hqf
          obtain ⟨b, j, hj, hy, hyplace⟩ := exists_add_eq s u hr hm hrf hmf
          rw [hx, hy]
          refine decide_eq_true ?_
          rw [hxplace, hyplace]
          exact roundedPlace_mono (Int.add_le_add_left (signedUnits_le hq hm hplace) _)
        · obtain ⟨a, i, hi, hx, hxplace⟩ := exists_add_eq s t hr hq hrf hqf
          have hbetween := place_between t q
          rw [hx, add_infinite hrf hmi]
          refine decide_eq_true ?_
          rcases place_infinite u hmi with hinf | hinf <;> omega
        · obtain ⟨b, j, hj, hy, hyplace⟩ := exists_add_eq s u hr hm hrf hmf
          have hbetween := place_between u m
          rw [hy, add_infinite hrf hqi]
          refine decide_eq_true ?_
          rcases place_infinite t hqi with hinf | hinf <;> omega
        · rw [add_infinite hrf hqi, add_infinite hrf hmi]
          exact h

theorem isFinite_neg (hx : x.isFinite = true) : (-x).isFinite = true := by
  cases x with
  | nan => cases hx
  | number s r hr => exact hx

theorem sub_eq_neg_add (x c : Binary64) : x - c = -c + x := add_comm x (-c)

theorem sub_le_sub_right (hc : c.isFinite = true) (h : x.le y = true) :
    (x - c).le (y - c) = true := by
  rw [sub_eq_neg_add, sub_eq_neg_add]
  exact add_le_add_left (isFinite_neg hc) h

theorem sub_self (hx : x.isFinite = true) : x - x = 0 := by
  cases x with
  | nan => cases hx
  | number s r hr =>
    have hne : r ≠ infinityRank := Nat.ne_of_lt (of_decide_eq_true hx)
    have hsum : signedUnits s r + signedUnits (!s) r = 0 := by cases s <;> simp [signedUnits]
    have hsign : (s && !s) = false := by cases s <;> rfl
    show add (number s r hr) (number (!s) r hr) = 0
    rw [add, if_neg hne, if_neg hne, hsum, if_pos rfl, hsign, zero_eq, zero]

/-- Zero adds nothing, though it may take the sign off a zero. -/
theorem add_zero_le (hx : x.isFinite = true) : (x + 0).le x = true := by
  cases x with
  | nan => cases hx
  | number s r hr =>
    obtain ⟨u, m, hm, hsum, hplace⟩ := exists_add_eq s false hr (Nat.zero_le _)
      (of_decide_eq_true hx) infinityRank_pos
    have hzero : signedUnits false 0 = 0 := by simp [signedUnits, unitsOf_zero]
    rw [zero_eq, hsum]
    refine decide_eq_true ?_
    rw [hplace, hzero, Int.add_zero, roundedPlace_signedUnits hr]

/-! ### Scales -/

/-- The rank of a magnitude times a factor of units. -/
def scaledRank (numerator denominator rank : Nat) : Nat :=
  if rank = infinityRank then infinityRank
  else nearestRank (unitsOf rank * numerator) denominator

theorem scaledRank_le (n d r : Nat) : scaledRank n d r ≤ infinityRank := by
  unfold scaledRank
  split
  · exact Nat.le_refl _
  · exact Nat.min_le_right _ _

theorem scaledRank_zero {n d : Nat} (hd : 0 < d) : scaledRank n d 0 = 0 := by
  have hne : 0 ≠ infinityRank := Nat.ne_of_lt infinityRank_pos
  rw [scaledRank, if_neg hne, unitsOf_zero, Nat.zero_mul]
  exact Nat.le_zero.mp (nearestRank_le hd (Nat.zero_le _))

theorem scaledRank_mono {n d r q : Nat} (hd : 0 < d) (h : r ≤ q) (hq : q ≤ infinityRank) :
    scaledRank n d r ≤ scaledRank n d q := by
  rcases Nat.lt_or_eq_of_le hq with hlt | rfl
  · rw [scaledRank, if_neg (by omega), scaledRank, if_neg (by omega)]
    exact nearestRank_mono hd (Nat.mul_le_mul_right n (unitsOf_le hq h))
  · refine (scaledRank_le n d r).trans ?_
    rw [scaledRank, if_pos rfl]

/-- A number times a positive quotient of units, rounded once. -/
def scale (numerator denominator : Nat) : Binary64 → Binary64
  | .nan => .nan
  | .number s r _ =>
    .number s (scaledRank numerator denominator r) (scaledRank_le numerator denominator r)

theorem scale_le_scale {n d : Nat} (hd : 0 < d) (h : x.le y = true) :
    (scale n d x).le (scale n d y) = true := by
  cases x with
  | nan => cases h
  | number s r hr =>
    cases y with
    | nan => cases h
    | number t q hq =>
      exact decide_eq_true
        (place_map (scaledRank_zero hd) (scaledRank_mono hd) hr hq (of_decide_eq_true h))

/-- Above zero and below infinity. -/
def IsPositive (x : Binary64) : Prop := lt 0 x = true ∧ x.isFinite = true

instance (x : Binary64) : Decidable x.IsPositive := inferInstanceAs (Decidable (_ ∧ _))

theorem IsPositive.exists_rank (h : x.IsPositive) :
    ∃ q hq, x = number false q hq ∧ 0 < q ∧ q < infinityRank := by
  obtain ⟨hpos, hfinite⟩ := h
  rw [zero_eq] at hpos
  cases x with
  | nan => cases hpos
  | number s q hq =>
    have hplace : place false 0 < place s q := of_decide_eq_true hpos
    cases s with
    | false =>
      exact ⟨q, hq, rfl, by simpa [place] using hplace, of_decide_eq_true hfinite⟩
    | true =>
      simp [place] at hplace
      omega

section Scales

variable {q : Nat} {hq : q ≤ infinityRank}

theorem mul_eq_scale (hpos : 0 < q) (hfinite : q < infinityRank) :
    x * number false q hq = scale (unitsOf q) unitsPerOne x := by
  show mul _ _ = _
  cases x with
  | nan => rfl
  | number s r hr =>
    by_cases hinf : r = infinityRank
    · have hzero : ¬(r = 0 ∨ q = 0) := by have := infinityRank_pos; omega
      have hone : r = infinityRank ∨ q = infinityRank := .inl hinf
      simp only [mul, if_pos hone, if_neg hzero, scale, scaledRank, if_pos hinf, infinity,
        Bool.bne_false]
    · have hboth : ¬(r = infinityRank ∨ q = infinityRank) := by omega
      simp only [mul, if_neg hboth, scale, scaledRank, if_neg hinf, nearest, Bool.bne_false]

theorem div_eq_scale (hpos : 0 < q) (hfinite : q < infinityRank) :
    x / number false q hq = scale unitsPerOne (unitsOf q) x := by
  have hinf' : q ≠ infinityRank := Nat.ne_of_lt hfinite
  have hzero : q ≠ 0 := Nat.ne_of_gt hpos
  show div _ _ = _
  cases x with
  | nan => rfl
  | number s r hr =>
    by_cases hinf : r = infinityRank
    · simp only [div, if_pos hinf, if_neg hinf', scale, scaledRank, infinity, Bool.bne_false]
    · simp only [div, if_neg hinf, if_neg hinf', if_neg hzero, scale, scaledRank, nearest,
        Bool.bne_false]

end Scales

theorem mul_le_mul_right (hc : c.IsPositive) (h : x.le y = true) : (x * c).le (y * c) = true := by
  obtain ⟨q, hq, rfl, hpos, hfinite⟩ := hc.exists_rank
  rw [mul_eq_scale hpos hfinite, mul_eq_scale hpos hfinite]
  exact scale_le_scale unitsPerOne_pos h

theorem div_le_div_right (hc : c.IsPositive) (h : x.le y = true) : (x / c).le (y / c) = true := by
  obtain ⟨q, hq, rfl, hpos, hfinite⟩ := hc.exists_rank
  rw [div_eq_scale hpos hfinite, div_eq_scale hpos hfinite]
  exact scale_le_scale (unitsOf_pos hpos hq) h

theorem scale_zero {n d : Nat} (hd : 0 < d) : scale n d 0 = 0 := by
  simp only [zero_eq, scale, scaledRank_zero hd]

theorem zero_mul (hc : c.IsPositive) : 0 * c = 0 := by
  obtain ⟨q, hq, rfl, hpos, hfinite⟩ := hc.exists_rank
  rw [mul_eq_scale hpos hfinite, scale_zero unitsPerOne_pos]

theorem zero_div (hc : c.IsPositive) : 0 / c = 0 := by
  obtain ⟨q, hq, rfl, hpos, hfinite⟩ := hc.exists_rank
  rw [div_eq_scale hpos hfinite, scale_zero (unitsOf_pos hpos hq)]

/-- The rank of one. -/
def oneRank : Nat := 1022 * mantissaBase + 2 ^ 52

theorem unitsOf_oneRank : unitsOf oneRank = unitsPerOne := by
  rw [← Nat.one_mul unitsPerOne]
  exact unitsOf_eq_mul_unitsPerOne (show 52 + 1022 = 1074 from rfl) (by decide) (by decide) rfl

/-- A positive number divided by itself is one, which as a factor changes nothing. -/
theorem div_self_mul (hx : x.IsPositive) (hc : c.IsPositive) : x / x * c = c := by
  obtain ⟨q, hq, rfl, hpos, hfinite⟩ := hx.exists_rank
  obtain ⟨k, hk, rfl, hkpos, hkfinite⟩ := hc.exists_rank
  have hone : oneRank < infinityRank := by decide
  have hquotient : scaledRank unitsPerOne (unitsOf q) q = oneRank := by
    rw [scaledRank, if_neg (Nat.ne_of_lt hfinite), Nat.mul_comm, ← unitsOf_oneRank]
    exact nearestRank_unitsOf (unitsOf_pos hpos hq) (Nat.le_of_lt hone)
  have hproduct : scaledRank (unitsOf k) unitsPerOne oneRank = k := by
    rw [scaledRank, if_neg (Nat.ne_of_lt hone), unitsOf_oneRank, Nat.mul_comm]
    exact nearestRank_unitsOf unitsPerOne_pos hk
  rw [mul_eq_scale hkpos hkfinite, div_eq_scale hpos hfinite]
  simp only [scale, hquotient, hproduct]

/-! ### Bounds -/

theorem isNaN_left_of_le (h : x.le y = true) : x.isNaN = false := by
  cases x with
  | nan => cases h
  | number s r hr => rfl

theorem isNaN_right_of_le (h : x.le y = true) : y.isNaN = false := by
  cases y with
  | nan => cases x <;> cases h
  | number s r hr => rfl

theorem max_le (hx : x.le z = true) (hy : y.le z = true) : (x.max y).le z = true := by
  rcases max_cases x y with h | h <;> rwa [h]

theorem min_le_min (hx : x.le y = true) (hc : c.isNaN = false) :
    (x.min c).le (y.min c) = true := by
  have hnx := isNaN_left_of_le hx
  exact le_min (le_trans (min_le_left hnx) hx) (min_le_right hnx hc)

theorem max_le_max (hx : x.le y = true) (hc : c.isNaN = false) :
    (x.max c).le (y.max c) = true := by
  have hny := isNaN_right_of_le hx
  exact max_le (le_trans hx (le_max_left hny)) (le_max_right hny hc)

theorem min_eq_left (h : x.le y = true) : x.min y = x := by
  refine if_neg fun hlt => ?_
  cases x <;> cases y <;> simp only [le, lt, decide_eq_true_eq, Bool.false_eq_true] at h hlt
  omega

/-- Only the zeros are at one place without being the same. -/
theorem eq_of_le_of_le (hxy : x.le y = true) (hyx : y.le x = true) (h : x.eq 0 = false) :
    x = y := by
  cases x with
  | nan => cases hxy
  | number s r hr =>
    cases y with
    | nan => cases hyx
    | number t q hq =>
      have hle : place s r ≤ place t q := of_decide_eq_true hxy
      have hge : place t q ≤ place s r := of_decide_eq_true hyx
      have hne : r ≠ 0 := fun hr0 => ne_true_of_eq_false h (number_eq_zero_iff.mpr hr0)
      cases s <;> cases t <;>
        simp only [place, if_true, Bool.false_eq_true, if_false] at hle hge
      case false.false =>
        obtain rfl : r = q := by omega
        rfl
      case false.true => omega
      case true.false => omega
      case true.true =>
        obtain rfl : r = q := by omega
        rfl

end EntityTable.Binary64
