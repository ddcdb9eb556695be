import EntityTable.Text
import Mathlib.Algebra.Order.Ring.Nat
import Mathlib.Data.List.TakeWhile
import Mathlib.Data.Nat.Digits.Defs
import Mathlib.Tactic.Ring

/-!
Digits as text: what they stand for, and which of them a number is written with.
-/

namespace EntityTable.Text

def IsDigits (t : Text) : Prop := ∀ c ∈ t, c.isAsciiDigit = true

def zeros (n : Nat) : Text := List.replicate n (CodePoint.ofChar '0')

theorem isDigits_zeros (n : Nat) : IsDigits (zeros n) := by
  intro c hc
  rw [List.eq_of_mem_replicate hc]
  decide

theorem isDigits_append {s t : Text} : IsDigits (s ++ t) ↔ s.IsDigits ∧ t.IsDigits :=
  List.forall_mem_append

/-! ### What digits stand for -/

theorem digitsValue_foldl (t : Text) (n : Nat) :
    t.foldl (fun n c => 10 * n + (c.val - 0x30)) n = n * 10 ^ t.length + digitsValue t := by
  induction t generalizing n with
  | nil => simp [digitsValue]
  | cons c t ih =>
    rw [digitsValue, List.foldl_cons, List.foldl_cons, ih, ih (10 * 0 + _), List.length_cons,
      pow_succ]
    ring

theorem digitsValue_append (s t : Text) :
    digitsValue (s ++ t) = digitsValue s * 10 ^ t.length + digitsValue t := by
  rw [digitsValue, List.foldl_append, digitsValue_foldl]
  rfl

theorem digitsValue_zeros (n : Nat) : digitsValue (zeros n) = 0 := by
  induction n with
  | zero => rfl
  | succ n ih =>
    have hzero : digitsValue [CodePoint.ofChar '0'] = 0 := rfl
    rw [zeros, List.replicate_succ, ← List.singleton_append, digitsValue_append, hzero, ← zeros, ih,
      Nat.zero_mul]

/-- Zeros in front do not count, zeros behind count as powers of ten. -/
theorem digitsValue_zeros_append (n : Nat) (t : Text) :
    digitsValue (zeros n ++ t) = digitsValue t := by
  rw [digitsValue_append, digitsValue_zeros, Nat.zero_mul, Nat.zero_add]

theorem digitsValue_append_zeros (t : Text) (n : Nat) :
    digitsValue (t ++ zeros n) = digitsValue t * 10 ^ n := by
  rw [digitsValue_append, digitsValue_zeros, Nat.add_zero, zeros, List.length_replicate]

theorem digitsValue_lt {t : Text} (h : t.IsDigits) : digitsValue t < 10 ^ t.length := by
  induction t with
  | nil => simp [digitsValue]
  | cons c t ih =>
    obtain ⟨hc, ht⟩ := List.forall_mem_cons.mp h
    have hrest := ih ht
    have hdigit : digitsValue [c] ≤ 9 := by
      simp only [CodePoint.isAsciiDigit, Bool.and_eq_true, decide_eq_true_eq] at hc
      simp only [digitsValue, List.foldl_cons, List.foldl_nil]
      omega
    rw [← List.singleton_append, digitsValue_append, List.length_append, List.length_singleton,
      Nat.pow_add]
    have hscaled : digitsValue [c] * 10 ^ t.length ≤ 9 * 10 ^ t.length :=
      Nat.mul_le_mul_right _ hdigit
    omega

/-! ### The digits of a number -/

theorem digitChar_spec : ∀ d < 10, (CodePoint.ofChar (Nat.digitChar d)).isAsciiDigit = true ∧
    (CodePoint.ofChar (Nat.digitChar d)).val = 0x30 + d := by decide

theorem ofNat_of_lt {n : Nat} (h : n < 10) : ofNat n = [CodePoint.ofChar (Nat.digitChar n)] := by
  rw [ofNat, Nat.toDigits_of_lt_base h]
  rfl

theorem ofNat_of_le {n : Nat} (h : 10 ≤ n) :
    ofNat n = ofNat (n / 10) ++ [CodePoint.ofChar (Nat.digitChar (n % 10))] := by
  rw [ofNat, Nat.toDigits_of_base_le (by decide) h, List.map_append]
  rfl

theorem ofNat_ne_nil (n : Nat) : ofNat n ≠ [] := by
  rcases Nat.lt_or_ge n 10 with h | h
  · rw [ofNat_of_lt h]
    exact List.cons_ne_nil _ _
  · rw [ofNat_of_le h]
    exact List.append_ne_nil_of_right_ne_nil _ (List.cons_ne_nil _ _)

theorem isDigits_ofNat (n : Nat) : IsDigits (ofNat n) := by
  induction n using Nat.strongRecOn with
  | ind n ih =>
    rcases Nat.lt_or_ge n 10 with h | h
    · rw [ofNat_of_lt h]
      exact List.forall_mem_singleton.mpr (digitChar_spec n h).1
    · rw [ofNat_of_le h]
      have hlast := (digitChar_spec (n % 10) (Nat.mod_lt n (by decide))).1
      exact isDigits_append.mpr ⟨ih (n / 10) (by omega), List.forall_mem_singleton.mpr hlast⟩

theorem digitsValue_ofNat (n : Nat) : digitsValue (ofNat n) = n := by
  induction n using Nat.strongRecOn with
  | ind n ih =>
    rcases Nat.lt_or_ge n 10 with h | h
    · rw [ofNat_of_lt h]
      simp [digitsValue, (digitChar_spec n h).2]
    · rw [ofNat_of_le h, digitsValue_append, ih (n / 10) (by omega)]
      have hlast := (digitChar_spec (n % 10) (Nat.mod_lt n (by decide))).2
      simp only [digitsValue, List.length_singleton, List.foldl_cons, List.foldl_nil, hlast]
      omega

/-- Only zero is written with a zero in front. -/
theorem head?_ofNat {n : Nat} (h : 0 < n) : (ofNat n).head? ≠ some (CodePoint.ofChar '0') := by
  induction n using Nat.strongRecOn with
  | ind n ih =>
    rcases Nat.lt_or_ge n 10 with hlt | hge
    · rw [ofNat_of_lt hlt, List.head?_singleton]
      intro heq
      have hval := congrArg CodePoint.val (Option.some.inj heq)
      rw [(digitChar_spec n hlt).2] at hval
      have hzero : (CodePoint.ofChar '0').val = 0x30 := rfl
      omega
    · have hfront := ih (n / 10) (by omega) (by omega)
      rw [ofNat_of_le hge]
      cases hdigits : ofNat (n / 10) with
      | nil => exact absurd hdigits (ofNat_ne_nil _)
      | cons c digits =>
        rw [hdigits] at hfront
        exact hfront

theorem length_ofNat_le {n k : Nat} (hk : 0 < k) (h : n < 10 ^ k) : (ofNat n).length ≤ k := by
  rw [ofNat, List.length_map]
  exact Nat.toDigits_length 10 n k hk h

/-! ### Hexadecimal digits -/

/-- The number that hexadecimal digits stand for. -/
def hexValue (t : Text) : Nat := t.foldl (fun n c => 16 * n + c.hexDigit?.getD 0) 0

theorem hexDigit?_digitChar :
    ∀ d < 16, (CodePoint.ofChar (Nat.digitChar d)).hexDigit? = some d := by decide

theorem hexDigits (n : Nat) : hexValue ((Nat.toDigits 16 n).map CodePoint.ofChar) = n ∧
    ∀ c ∈ (Nat.toDigits 16 n).map CodePoint.ofChar, c.hexDigit?.isSome = true := by
  induction n using Nat.strongRecOn with
  | ind n ih =>
    by_cases hn : n < 16
    · have hdigit := hexDigit?_digitChar n hn
      rw [Nat.toDigits_of_lt_base hn]
      exact ⟨by simp [hexValue, hdigit], by simp [hdigit]⟩
    · obtain ⟨hvalue, hall⟩ := ih (n / 16) (by omega)
      have hdigit := hexDigit?_digitChar (n % 16) (Nat.mod_lt _ (by decide))
      rw [Nat.toDigits_of_base_le (by decide) (by omega), List.map_append]
      constructor
      · rw [hexValue, List.foldl_append, ← hexValue, hvalue]
        simp only [List.map_cons, List.map_nil, List.foldl_cons, List.foldl_nil, hdigit,
          Option.getD_some]
        exact Nat.div_add_mod n 16
      · intro c hc
        rcases List.mem_append.mp hc with hc | hc
        · exact hall c hc
        · obtain rfl := List.mem_singleton.mp hc
          rw [hdigit]
          rfl

theorem hexValue_hex (width n : Nat) : hexValue (hex width n) = n := by
  have hzeros (k : Nat) : (List.replicate k (CodePoint.ofChar '0')).foldl
      (fun n c => 16 * n + c.hexDigit?.getD 0) 0 = 0 := by
    induction k with
    | zero => rfl
    | succ k ih => exact ih
  rw [hex, hexValue, List.foldl_append, hzeros]
  exact (hexDigits n).1

theorem hexDigit?_of_mem_hex {width n : Nat} {c : CodePoint} (hc : c ∈ hex width n) :
    c.hexDigit?.isSome = true := by
  rcases List.mem_append.mp hc with hc | hc
  · rw [List.eq_of_mem_replicate hc]
    decide
  · exact (hexDigits n).2 c hc

theorem isAscii_of_hexDigit? {c : CodePoint} (h : c.hexDigit?.isSome = true) :
    c.isAscii = true := by
  unfold CodePoint.hexDigit? at h
  simp only [CodePoint.isAscii, decide_eq_true_eq]
  split at h
  · next hd =>
    simp only [CodePoint.isAsciiDigit, Bool.and_eq_true, decide_eq_true_eq] at hd
    omega
  · split at h
    · omega
    · split at h
      · omega
      · cases h

theorem length_hex {width n : Nat} (hw : 0 < width) (h : n < 16 ^ width) :
    (hex width n).length = width := by
  have hdigits := Nat.toDigits_length 16 n width hw h
  simp only [hex, List.length_append, List.length_replicate, List.length_map]
  omega

/-! ### Where digits end -/

theorem takeWhile_digits {s rest : Text} (hs : s.IsDigits)
    (hr : ∀ c ∈ rest.head?, ¬c.isAsciiDigit = true) :
    (s ++ rest).takeWhile CodePoint.isAsciiDigit = s := by
  rw [List.takeWhile_append_of_pos hs]
  cases rest with
  | nil => simp
  | cons c rest =>
    have hc : ¬c.isAsciiDigit = true := hr c rfl
    rw [List.takeWhile_cons_of_neg hc, List.append_nil]

end EntityTable.Text
