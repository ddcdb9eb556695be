import EntityTable.Json.Token
import EntityTable.Proofs.Text.Digits

/-!
Numbers as JSON writes them, and what the lexer makes of them: a numeral is read to its end, where
nothing stands that could continue it.
-/

namespace EntityTable.Json

open Text (IsDigits zeros digitsValue)

/-- What stands behind a number and ends it. -/
def EndsNumber (rest : Text) : Prop :=
  ∀ c ∈ rest.head?, ¬c.isAsciiDigit = true ∧ c ≠ '.' ∧ c ≠ 'e' ∧ c ≠ 'E'

theorem endsNumber_cons {c : CodePoint}
    (h : ¬c.isAsciiDigit = true ∧ c ≠ '.' ∧ c ≠ 'e' ∧ c ≠ 'E') (rest : Text) :
    EndsNumber (c :: rest) := by
  intro d hd
  obtain rfl := Option.some.inj hd
  exact h

/-- The parts of a number in JSON text. A blank fraction goes without its point; an exponent has a
sign, negative or not, and digits. -/
structure Numeral where
  negative : Bool
  whole : Text
  fraction : Text
  exponent? : Option (Bool × Text)

namespace Numeral

def signText (n : Numeral) : Text := if n.negative then "-" else []

def pointText (n : Numeral) : Text :=
  if n.fraction.isEmpty then [] else CodePoint.ofChar '.' :: n.fraction

def exponentText (n : Numeral) : Text :=
  match n.exponent? with
  | none => []
  | some (negative, digits) =>
    CodePoint.ofChar 'e' :: CodePoint.ofChar (if negative then '-' else '+') :: digits

def text (n : Numeral) : Text := n.signText ++ (n.whole ++ (n.pointText ++ n.exponentText))

def exponentValue (n : Numeral) : Int :=
  match n.exponent? with
  | none => 0
  | some (negative, digits) => if negative then -(digitsValue digits : Int) else digitsValue digits

/-- Every part has digits only, and a zero stands in front of the point alone. -/
structure Proper (n : Numeral) : Prop where
  whole_digits : n.whole.IsDigits
  whole_ne_nil : n.whole ≠ []
  whole_head : n.whole = zeros 1 ∨ n.whole.head? ≠ some (CodePoint.ofChar '0')
  fraction_digits : n.fraction.IsDigits
  exponent_digits : ∀ negative digits, n.exponent? = some (negative, digits) →
    digits.IsDigits ∧ digits ≠ []

/-! What stands behind each part. -/

theorem drop_signText (n : Numeral) (rest : Text) : (n.text ++ rest).drop n.signText.length =
    n.whole ++ (n.pointText ++ (n.exponentText ++ rest)) := by
  rw [text, List.append_assoc, List.drop_left]
  simp only [List.append_assoc]

theorem drop_whole (n : Numeral) (rest : Text) :
    (n.text ++ rest).drop (n.signText.length + n.whole.length) =
      n.pointText ++ (n.exponentText ++ rest) := by
  rw [← List.drop_drop, drop_signText]
  exact List.drop_left

theorem drop_pointText (n : Numeral) (rest : Text) :
    (n.text ++ rest).drop (n.signText.length + n.whole.length + n.pointText.length) =
      n.exponentText ++ rest := by
  rw [← List.drop_drop, drop_whole]
  exact List.drop_left

theorem length_text (n : Numeral) : n.text.length =
    n.signText.length + n.whole.length + n.pointText.length + n.exponentText.length := by
  simp only [text, List.length_append]
  omega

theorem length_signText (n : Numeral) : n.signText.length = if n.negative = true then 1 else 0 := by
  unfold signText
  split <;> rfl

theorem length_pointText (n : Numeral) :
    n.pointText.length = if n.fraction.isEmpty = true then 0 else n.fraction.length + 1 := by
  unfold pointText
  split <;> rfl

end Numeral

namespace Lexeme

open Numeral

variable {n : Numeral} {rest : Text}

theorem not_isAsciiDigit_of_ends (h : EndsNumber rest) :
    ∀ c ∈ rest.head?, ¬c.isAsciiDigit = true := fun c hc => (h c hc).1

theorem head_exponentText (hr : EndsNumber rest) :
    ∀ c ∈ (n.exponentText ++ rest).head?, ¬c.isAsciiDigit = true ∧ c ≠ '.' := by
  unfold exponentText
  cases n.exponent? with
  | none => exact fun c hc => ⟨(hr c hc).1, (hr c hc).2.1⟩
  | some e =>
    intro c hc
    obtain rfl := Option.some.inj hc
    decide

theorem head_pointText (hr : EndsNumber rest) :
    ∀ c ∈ (n.pointText ++ (n.exponentText ++ rest)).head?, ¬c.isAsciiDigit = true := by
  unfold pointText
  split
  · exact fun c hc => (head_exponentText hr c hc).1
  · intro c hc
    obtain rfl := Option.some.inj hc
    decide

theorem wholeDigits_numeral (hn : n.Proper) (hr : EndsNumber rest) :
    wholeDigits (n.whole ++ (n.pointText ++ (n.exponentText ++ rest))) = n.whole := by
  unfold wholeDigits
  rcases hn.whole_head with hzero | hhead
  · rw [hzero]
    rfl
  · have hfront : (n.whole ++ (n.pointText ++ (n.exponentText ++ rest))).head? = n.whole.head? := by
      cases hwhole : n.whole with
      | nil => exact absurd hwhole hn.whole_ne_nil
      | cons c digits => rfl
    rw [hfront, if_neg hhead]
    exact Text.takeWhile_digits hn.whole_digits (head_pointText hr)

theorem fractionDigits_numeral (hn : n.Proper) (hr : EndsNumber rest) :
    fractionDigits (n.pointText ++ (n.exponentText ++ rest)) = n.fraction := by
  have hhead := head_exponentText (n := n) hr
  unfold pointText
  cases hfraction : n.fraction with
  | nil =>
    simp only [List.isEmpty_nil, if_true, List.nil_append]
    cases hbehind : n.exponentText ++ rest with
    | nil => rfl
    | cons c behind =>
      rw [hbehind] at hhead
      rw [fractionDigits, if_neg (hhead c rfl).2]
  | cons c digits =>
    rw [if_neg (by simp), List.cons_append, fractionDigits, if_pos rfl, ← hfraction]
    exact Text.takeWhile_digits hn.fraction_digits fun d hd => (hhead d hd).1

theorem exponentPart?_numeral (hn : n.Proper) (hr : EndsNumber rest) :
    exponentPart? (n.exponentText ++ rest) =
      n.exponent?.map fun _ => (n.exponentValue, n.exponentText.length) := by
  unfold exponentText exponentValue
  cases hexponent : n.exponent? with
  | none =>
    rw [List.nil_append]
    cases rest with
    | nil => rfl
    | cons c rest =>
      have hc := hr c rfl
      simp [exponentPart?, hc.2.2.1, hc.2.2.2]
  | some e =>
    obtain ⟨negative, digits⟩ := e
    obtain ⟨hdigits, hne⟩ := hn.exponent_digits negative digits hexponent
    have htake := Text.takeWhile_digits hdigits (not_isAsciiDigit_of_ends hr)
    cases digits with
    | nil => exact absurd rfl hne
    | cons d digits =>
      have hd : d.isAsciiDigit = true := hdigits d (List.mem_cons_self ..)
      have hread (t : Text) : Text.signAndRest
          (CodePoint.ofChar (if negative then '-' else '+') :: t) = (negative, t) := by
        cases negative <;> rfl
      have hsign : ¬CodePoint.ofChar (if negative then '-' else '+') = d := by
        intro heq
        rw [← heq] at hd
        cases negative <;> cases hd
      simp only [List.cons_append, exponentPart?, hread, List.head?_cons, Option.some.injEq, hsign,
        if_false, Option.map_some] at htake ⊢
      rw [htake]
      simp
      omega

theorem head?_text_eq_minus_iff (hn : n.Proper) :
    (n.text ++ rest).head? = some (CodePoint.ofChar '-') ↔ n.negative = true := by
  unfold text signText
  cases hnegative : n.negative with
  | true => simp [Text.ofString]
  | false =>
    cases hwhole : n.whole with
    | nil => exact absurd hwhole hn.whole_ne_nil
    | cons c digits =>
      have hc : c.isAsciiDigit = true := hn.whole_digits c (hwhole ▸ List.mem_cons_self ..)
      have hne : c ≠ CodePoint.ofChar '-' := by
        intro heq
        rw [heq] at hc
        cases hc
      simp [hne]

/-- What the lexer makes of a numeral. -/
theorem number?_numeral (hn : n.Proper) (hr : EndsNumber rest) :
    number? (n.text ++ rest) =
      if n.fraction = [] ∧ n.exponent? = none then
        if n.whole.length > Text.maxIntegerDigits then
          some (.longInteger n.whole.length, n.text.length)
        else
          some (.scalar (.int (if n.negative then -(digitsValue n.whole : Int)
            else digitsValue n.whole)), n.text.length)
      else
        some (.scalar (.float (Binary64.ofDecimal n.negative (digitsValue (n.whole ++ n.fraction))
          (n.exponentValue - n.fraction.length))), n.text.length) := by
  have hminus : ((n.text ++ rest).head? = some (CodePoint.ofChar '-')) = (n.negative = true) :=
    propext (head?_text_eq_minus_iff hn)
  have hne : n.whole.isEmpty = false := by
    simpa using hn.whole_ne_nil
  have hvalue : (n.exponent?.map fun _ => (n.exponentValue, n.exponentText.length)).getD (0, 0) =
      (n.exponentValue, n.exponentText.length) := by
    unfold exponentValue exponentText
    cases n.exponent? <;> rfl
  unfold number?
  simp only [hminus, ← length_signText, drop_signText, wholeDigits_numeral hn hr, drop_whole,
    fractionDigits_numeral hn hr, ← length_pointText, drop_pointText, exponentPart?_numeral hn hr,
    hne, hvalue]
  simp only [← length_text, List.isEmpty_iff, Option.isNone_map, Option.isNone_iff_eq_none,
    Bool.false_eq_true, if_false, Bool.decide_eq_true]
  split
  · next hinteger =>
    have hplain : n.signText.length + n.whole.length + n.pointText.length = n.text.length := by
      rw [length_text, pointText, exponentText, hinteger.1, hinteger.2]
      rfl
    rw [hplain]
  · rfl

end Lexeme
end EntityTable.Json
