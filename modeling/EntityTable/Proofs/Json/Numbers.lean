import EntityTable.Json.Writer
import EntityTable.Proofs.Binary64.Decimal
import EntityTable.Proofs.Json.Digits
import EntityTable.Proofs.Json.Numerals
import EntityTable.Proofs.Text.Printable
import Mathlib.Data.List.DropRight

/-!
Numbers that are written read back as themselves, and integers stay apart from floating-point
numbers: the text of each is a numeral that the lexer takes to its end.
-/

namespace EntityTable.Json

open Text (IsDigits zeros digitsValue)
open Lexeme (number?)

namespace Numeral

/-! ### Integers -/

def ofInt (i : Int) : Numeral := ⟨i < 0, Text.ofNat i.natAbs, [], none⟩

theorem text_ofInt (i : Int) : (ofInt i).text = Text.ofInt i := by
  by_cases h : i < 0 <;>
    simp [ofInt, text, signText, pointText, exponentText, Text.ofInt, h, Text.ofString]

theorem signed_natAbs (i : Int) :
    (if decide (i < 0) = true then -(i.natAbs : Int) else i.natAbs) = i := by
  by_cases h : i < 0
  · rw [decide_eq_true h, if_pos rfl]
    omega
  · rw [decide_eq_false h, if_neg Bool.false_ne_true]
    omega

theorem head_ofNat (n : Nat) :
    Text.ofNat n = zeros 1 ∨ (Text.ofNat n).head? ≠ some (CodePoint.ofChar '0') := by
  rcases Nat.eq_zero_or_pos n with rfl | hpos
  · exact .inl rfl
  · exact .inr (Text.head?_ofNat hpos)

theorem proper_ofInt (i : Int) : (ofInt i).Proper where
  whole_digits := Text.isDigits_ofNat _
  whole_ne_nil := Text.ofNat_ne_nil _
  whole_head := head_ofNat _
  fraction_digits := List.forall_mem_nil _
  exponent_digits := by simp [ofInt]

/-! ### Finite numbers -/

/-- The numeral reads as a floating-point number of this magnitude, with either sign. -/
structure Denotes (n : Numeral) (rank : Nat) : Prop where
  proper : n.Proper
  float : n.fraction = [] → n.exponent? ≠ none
  value : ∀ negative hr, Binary64.ofDecimal negative (digitsValue (n.whole ++ n.fraction))
    (n.exponentValue - n.fraction.length) = .number negative rank hr

/-- Digits without a zero in front that read as this magnitude, if the first of them weighs
`10 ^ exponent`. -/
structure Significand (digits : Text) (exponent : Int) (rank : Nat) : Prop where
  isDigits : digits.IsDigits
  ne_nil : digits ≠ []
  head : digits.head? ≠ some (CodePoint.ofChar '0')
  value : ∀ negative hr, Binary64.ofDecimal negative (digitsValue digits)
    (exponent + 1 - digits.length) = .number negative rank hr

theorem exists_append_zeros (digits : Text) :
    ∃ k, digits = NumberStyle.dropTrailingZeros digits ++ zeros k := by
  let isZero (c : CodePoint) : Bool := c = CodePoint.ofChar '0'
  have hzeros : digits.rtakeWhile isZero = zeros (digits.rtakeWhile isZero).length := by
    apply List.eq_replicate_of_mem
    intro c hc
    simpa [isZero] using List.mem_rtakeWhile_imp hc
  refine ⟨(digits.rtakeWhile isZero).length, ?_⟩
  rw [← hzeros]
  exact List.rdropWhile_append_rtakeWhile.symm

/-- The digits that a finite magnitude is written with. -/
theorem significand_shortest {rank : Nat} (hpos : 0 < rank) (hr : rank ≤ Binary64.infinityRank) :
    Significand (NumberStyle.dropTrailingZeros (Text.ofNat (Decimal.shortest rank).digits))
      ((Decimal.shortest rank).exponent + (Text.ofNat (Decimal.shortest rank).digits).length - 1)
      rank := by
  generalize hd : Decimal.shortest rank = d
  have hdigits : 0 < d.digits := hd ▸ Decimal.digits_shortest_pos hpos hr
  have hall := Text.isDigits_ofNat d.digits
  have hhead := Text.head?_ofNat hdigits
  have hvalue := Text.digitsValue_ofNat d.digits
  obtain ⟨k, hk⟩ := exists_append_zeros (Text.ofNat d.digits)
  generalize NumberStyle.dropTrailingZeros (Text.ofNat d.digits) = digits at hk ⊢
  rw [hk] at hall hhead hvalue ⊢
  rw [Text.digitsValue_append_zeros] at hvalue
  have hne : digits ≠ [] := by
    rintro rfl
    rw [show digitsValue [] = 0 from rfl] at hvalue
    omega
  refine ⟨(Text.isDigits_append.mp hall).1, hne, ?_, fun negative hr' => ?_⟩
  · cases digits with
    | nil => exact absurd rfl hne
    | cons c digits => exact hhead
  · have hlength : (zeros k).length = k := List.length_replicate
    have hexponent : d.exponent + ((digits ++ zeros k).length : Int) - 1 + 1 - digits.length =
        d.exponent + k := by
      rw [List.length_append, hlength]
      omega
    have hread := Decimal.ofDecimal_shortest negative hpos hr
    rw [hd, ← hvalue] at hread
    rw [hexponent, ← hread, ← Binary64.ofDecimal_scale negative _ k, add_sub_cancel_right]

section Layouts

variable {digits : Text} {exponent : Int} {rank : Nat}

/-- All digits behind the point. -/
theorem exists_denotes_below (h : Significand digits exponent rank) (hwhole : exponent + 1 ≤ 0) :
    ∃ n : Numeral, n.negative = false ∧ n.Denotes rank ∧
      n.text = NumberStyle.positional digits (exponent + 1) := by
  have hlength (k : Nat) : (zeros k).length = k := List.length_replicate
  refine ⟨⟨false, zeros 1, zeros (-(exponent + 1)).toNat ++ digits, none⟩, rfl, ⟨?_, ?_, ?_⟩, ?_⟩
  · exact ⟨Text.isDigits_zeros 1, by simp [zeros], .inl rfl,
      Text.isDigits_append.mpr ⟨Text.isDigits_zeros _, h.isDigits⟩, by simp⟩
  · intro hnil
    exact absurd (List.append_eq_nil_iff.mp hnil).2 h.ne_nil
  · intro negative hr
    rw [← h.value negative hr]
    dsimp only [exponentValue]
    rw [Text.digitsValue_zeros_append, Text.digitsValue_zeros_append, List.length_append, hlength]
    congr 1
    omega
  · have hne : (zeros (-(exponent + 1)).toNat ++ digits).isEmpty = false := by
      simpa using fun _ => h.ne_nil
    rw [NumberStyle.positional, if_pos hwhole]
    simp only [text, signText, pointText, exponentText, hne, Text.concat]
    simp [zeros, Text.ofString]

/-- All digits in front of the point, with the zeros that are missing. -/
theorem exists_denotes_whole (h : Significand digits exponent rank)
    (hwhole : (digits.length : Int) ≤ exponent + 1) :
    ∃ n : Numeral, n.negative = false ∧ n.Denotes rank ∧
      n.text = NumberStyle.positional digits (exponent + 1) := by
  have hlength (k : Nat) : (zeros k).length = k := List.length_replicate
  have hpos := List.length_pos_iff.mpr h.ne_nil
  obtain ⟨n, hn⟩ : ∃ n : Nat, exponent + 1 = n := ⟨(exponent + 1).toNat, by omega⟩
  have hle : digits.length ≤ n := by omega
  refine ⟨⟨false, digits ++ zeros (n - digits.length), zeros 1, none⟩, rfl, ⟨?_, ?_, ?_⟩, ?_⟩
  · refine ⟨Text.isDigits_append.mpr ⟨h.isDigits, Text.isDigits_zeros _⟩,
      List.append_ne_nil_of_left_ne_nil h.ne_nil _, .inr ?_, Text.isDigits_zeros 1, by simp⟩
    rw [List.head?_append_of_ne_nil _ h.ne_nil]
    exact h.head
  · intro hnil
    cases hnil
  · intro negative hr
    rw [← h.value negative hr, ← Binary64.ofDecimal_scale negative (digitsValue digits)
      (n - digits.length + 1)]
    dsimp only [exponentValue]
    rw [Text.digitsValue_append_zeros, Text.digitsValue_append_zeros, hlength, Nat.mul_assoc,
      ← pow_add]
    congr 1
    omega
  · rw [NumberStyle.positional, if_neg (by omega), hn]
    dsimp only
    rw [Int.toNat_natCast, List.take_of_length_le hle, List.drop_eq_nil_of_le hle]
    simp [text, signText, pointText, exponentText, zeros, Text.concat, Text.ofString]

/-- The point among the digits. -/
theorem exists_denotes_among (h : Significand digits exponent rank) (hwhole : 0 < exponent + 1)
    (hfraction : exponent + 1 < digits.length) :
    ∃ n : Numeral, n.negative = false ∧ n.Denotes rank ∧
      n.text = NumberStyle.positional digits (exponent + 1) := by
  obtain ⟨n, hn⟩ : ∃ n : Nat, exponent + 1 = n := ⟨(exponent + 1).toNat, by omega⟩
  have hpos : n ≠ 0 := by omega
  have hlt : n < digits.length := by omega
  have hdrop : digits.drop n ≠ [] := by simpa using hlt
  have hboth : digits.take n ++ digits.drop n = digits := List.take_append_drop n digits
  have hsplit := h.isDigits
  rw [← hboth, Text.isDigits_append] at hsplit
  refine ⟨⟨false, digits.take n, digits.drop n, none⟩, rfl, ⟨?_, ?_, ?_⟩, ?_⟩
  · refine ⟨hsplit.1, ?_, .inr ?_, hsplit.2, by simp⟩
    · simpa using ⟨hpos, h.ne_nil⟩
    · rw [List.head?_take, if_neg hpos]
      exact h.head
  · intro hnil
    exact absurd hnil hdrop
  · intro negative hr
    rw [← h.value negative hr]
    dsimp only [exponentValue]
    rw [hboth, List.length_drop]
    congr 1
    omega
  · have hpoint : (digits.drop n).isEmpty = false := by simpa using hlt
    have hnone : n - digits.length = 0 := by omega
    rw [NumberStyle.positional, if_neg (by omega), hn]
    simp only [text, signText, pointText, exponentText, Text.concat, hpoint, hnone,
      Int.toNat_natCast]
    simp [Text.ofString]

theorem exists_denotes_positional (h : Significand digits exponent rank) :
    ∃ n : Numeral, n.negative = false ∧ n.Denotes rank ∧
      n.text = NumberStyle.positional digits (exponent + 1) := by
  rcases Int.lt_or_le 0 (exponent + 1) with hwhole | hbelow
  · rcases Int.lt_or_le (exponent + 1) digits.length with hamong | hall
    · exact exists_denotes_among h hwhole hamong
    · exact exists_denotes_whole h hall
  · exact exists_denotes_below h hbelow

/-- One digit in front of the point, and an exponent. -/
theorem exists_denotes_scientific (style : NumberStyle) (h : Significand digits exponent rank) :
    ∃ n : Numeral, n.negative = false ∧ n.Denotes rank ∧
      n.text = style.scientific digits exponent := by
  have hne := h.ne_nil
  have hhead := h.head
  have hvalue := h.value
  have hdigits := h.isDigits
  cases digits with
  | nil => exact absurd rfl hne
  | cons c digits =>
    have hpad (k : Nat) : IsDigits (zeros k ++ Text.ofNat exponent.natAbs) :=
      Text.isDigits_append.mpr ⟨Text.isDigits_zeros k, Text.isDigits_ofNat _⟩
    refine ⟨⟨false, [c], digits, some (exponent < 0,
      zeros (style.exponentDigits - (Text.ofNat exponent.natAbs).length) ++
        Text.ofNat exponent.natAbs)⟩, rfl, ⟨?_, ?_, ?_⟩, ?_⟩
    · obtain ⟨hc, hrest⟩ := List.forall_mem_cons.mp hdigits
      refine ⟨List.forall_mem_singleton.mpr hc, List.cons_ne_nil _ _, .inr hhead, hrest, ?_⟩
      intro negative text heq
      obtain ⟨-, rfl⟩ := Prod.mk.inj (Option.some.inj heq)
      exact ⟨hpad _, List.append_ne_nil_of_right_ne_nil _ (Text.ofNat_ne_nil _)⟩
    · intro _ hnone
      cases hnone
    · intro negative hr
      rw [← hvalue negative hr]
      dsimp only [exponentValue]
      rw [Text.digitsValue_zeros_append, Text.digitsValue_ofNat, List.singleton_append,
        List.length_cons]
      rw [signed_natAbs]
      congr 1
      omega
    · cases digits with
      | nil =>
        by_cases hneg : exponent < 0 <;>
          simp [text, signText, pointText, exponentText, NumberStyle.scientific, Text.concat,
            Text.ofString, zeros, hneg]
      | cons d digits =>
        by_cases hneg : exponent < 0 <;>
          simp [text, signText, pointText, exponentText, NumberStyle.scientific, Text.concat,
            Text.ofString, zeros, hneg]

end Layouts

theorem exists_denotes_magnitude (style : NumberStyle) {rank : Nat}
    (hr : rank < Binary64.infinityRank) :
    ∃ n : Numeral, n.negative = false ∧ n.Denotes rank ∧ n.text = style.magnitude rank := by
  unfold NumberStyle.magnitude
  by_cases hzero : rank = 0
  · subst hzero
    refine ⟨⟨false, zeros 1, zeros 1, none⟩, rfl, ⟨?_, ?_, ?_⟩, rfl⟩
    · exact ⟨Text.isDigits_zeros 1, by simp [zeros], .inl rfl, Text.isDigits_zeros 1, by simp⟩
    · intro hnil
      cases hnil
    · intro negative _
      rfl
  · rw [if_neg hzero, if_neg hr.ne]
    dsimp only
    have h := significand_shortest (Nat.pos_of_ne_zero hzero) hr.le
    split
    · exact exists_denotes_positional h
    · exact exists_denotes_scientific style h

/-- The sign stands in front of the magnitude. -/
theorem exists_denotes_render (style : NumberStyle) (negative : Bool) {rank : Nat}
    (hr : rank < Binary64.infinityRank) :
    ∃ n : Numeral, n.negative = negative ∧ n.Denotes rank ∧
      n.text = style.render (.number negative rank hr.le) := by
  obtain ⟨n, hn, hdenotes, htext⟩ := exists_denotes_magnitude style hr
  refine ⟨{ n with negative := negative }, rfl, ⟨?_, hdenotes.float, hdenotes.value⟩, ?_⟩
  · obtain ⟨hwhole, hne, hhead, hfraction, hexponent⟩ := hdenotes.proper
    exact ⟨hwhole, hne, hhead, hfraction, hexponent⟩
  · rw [NumberStyle.render, ← htext]
    cases negative <;> simp [text, signText, pointText, exponentText, hn, Text.ofString]

end Numeral

/-! ### Printable text -/

/-- A numeral has digits and a few marks. -/
theorem Numeral.Proper.forall_mem_text {n : Numeral} (h : n.Proper) {p : CodePoint → Prop}
    (hdigit : ∀ c : CodePoint, c.isAsciiDigit = true → p c) (hmark : ∀ c ∈ ("-+.e" : Text), p c) :
    ∀ c ∈ n.text, p c := by
  obtain ⟨hminus, hplus, hdot, he⟩ : p (.ofChar '-') ∧ p (.ofChar '+') ∧ p (.ofChar '.') ∧
      p (.ofChar 'e') := by simpa [Text.ofString] using hmark
  have hdigits {t : Text} (ht : t.IsDigits) : ∀ c ∈ t, p c := fun c hc => hdigit c (ht c hc)
  have hsign : ∀ c ∈ n.signText, p c := by
    unfold Numeral.signText
    split
    · exact List.forall_mem_singleton.mpr hminus
    · exact List.forall_mem_nil _
  have hpoint : ∀ c ∈ n.pointText, p c := by
    unfold Numeral.pointText
    split
    · exact List.forall_mem_nil _
    · exact List.forall_mem_cons.mpr ⟨hdot, hdigits h.fraction_digits⟩
  have hexponent : ∀ c ∈ n.exponentText, p c := by
    unfold Numeral.exponentText
    cases hs : n.exponent? with
    | none => exact List.forall_mem_nil _
    | some e =>
      have hmagnitude := hdigits (h.exponent_digits e.1 e.2 hs).1
      have hdirection : p (.ofChar (if e.1 then '-' else '+')) := by
        cases e.1
        · exact hplus
        · exact hminus
      exact List.forall_mem_cons.mpr ⟨he, List.forall_mem_cons.mpr ⟨hdirection, hmagnitude⟩⟩
  exact List.forall_mem_append.mpr ⟨hsign, List.forall_mem_append.mpr
    ⟨hdigits h.whole_digits, List.forall_mem_append.mpr ⟨hpoint, hexponent⟩⟩⟩

theorem Numeral.Proper.printable {n : Numeral} (h : n.Proper) : n.text.Printable := by
  refine h.forall_mem_text (fun c hc => ?_) (by decide)
  exact Text.printable_of_isDigits (List.forall_mem_singleton.mpr hc) c (List.mem_singleton_self c)

theorem printable_ofInt (i : Int) : (Text.ofInt i).Printable := by
  rw [← Numeral.text_ofInt]
  exact (Numeral.proper_ofInt i).printable

theorem printable_renderNumber (style : NumberStyle) {x : Binary64} (hx : x.isFinite = true) :
    (style.render x).Printable := by
  cases x with
  | nan => cases hx
  | number negative rank hle =>
    obtain ⟨n, -, hdenotes, htext⟩ :=
      Numeral.exists_denotes_render style negative (of_decide_eq_true hx)
    exact htext ▸ hdenotes.proper.printable

/-! ### What the lexer makes of them -/

variable {rest : Text}

theorem number?_ofInt {i : Int} (hi : i.natAbs < 10 ^ Text.maxIntegerDigits)
    (hr : EndsNumber rest) :
    number? (Text.ofInt i ++ rest) = some (.scalar (.int i), (Text.ofInt i).length) := by
  have hlength : ¬(Text.ofNat i.natAbs).length > Text.maxIntegerDigits :=
    Nat.not_lt.mpr (Text.length_ofNat_le (by decide) hi)
  rw [← Numeral.text_ofInt, Lexeme.number?_numeral (Numeral.proper_ofInt i) hr]
  simp only [Numeral.ofInt, and_self, if_true, hlength, if_false, Text.digitsValue_ofNat,
    Numeral.signed_natAbs]

theorem number?_render {style : NumberStyle} {x : Binary64} (hx : x.isFinite = true)
    (hr : EndsNumber rest) :
    number? (style.render x ++ rest) = some (.scalar (.float x), (style.render x).length) := by
  cases x with
  | nan => cases hx
  | number negative rank hle =>
    obtain ⟨n, hn, hdenotes, htext⟩ :=
      Numeral.exists_denotes_render style negative (of_decide_eq_true hx)
    have hfloat : ¬(n.fraction = [] ∧ n.exponent? = none) := fun h => hdenotes.float h.1 h.2
    rw [← htext, Lexeme.number?_numeral hdenotes.proper hr, if_neg hfloat,
      hdenotes.value n.negative hle, hn]

/-! ### Where a number starts -/

namespace Lexeme

variable {c : CodePoint} {rest : Text} {lexeme : Lexeme} {length : Nat}

theorem digit_of_wholeDigits {s : Text} (h : wholeDigits s ≠ []) :
    ∃ d digits, s = d :: digits ∧ d.isAsciiDigit = true := by
  cases s with
  | nil => exact absurd rfl h
  | cons d digits =>
    refine ⟨d, digits, rfl, ?_⟩
    by_contra hd
    have hzero : (d :: digits).head? ≠ some (CodePoint.ofChar '0') := by
      intro heq
      rw [Option.some.inj heq] at hd
      exact hd rfl
    rw [wholeDigits, if_neg hzero, List.takeWhile_cons_of_neg hd] at h
    exact h rfl

/-- A number starts with a digit, or with a minus and a digit. -/
theorem digit_of_number? (h : number? (c :: rest) = some (lexeme, length)) :
    c.isAsciiDigit = true ∨ c = CodePoint.ofChar '-' ∧
      ∃ d digits, rest = d :: digits ∧ d.isAsciiDigit = true := by
  obtain ⟨sign, hsign, hne, -⟩ := number?_eq_some h
  obtain ⟨d, digits, hdrop, hd⟩ := digit_of_wholeDigits hne
  rcases hsign with ⟨hminus, rfl⟩ | rfl
  · exact .inr ⟨Option.some.inj hminus, d, digits, hdrop, hd⟩
  · exact .inl ((List.cons.inj hdrop).1 ▸ hd)

theorem length_number?_pos {s : Text} (h : number? s = some (lexeme, length)) : 0 < length := by
  obtain ⟨sign, -, hne, hle, -⟩ := number?_eq_some h
  exact (List.length_pos_iff.mpr hne).trans_le hle

/-- No literal starts like a number. -/
theorem literal?_of_number? (h : number? (c :: rest) = some (lexeme, length)) :
    literal? (c :: rest) = none := by
  rw [literal?, Option.map_eq_none_iff, List.find?_eq_none]
  have hletter {d : CodePoint} (hd : d.isAsciiDigit = true) (e : Char)
      (he : (CodePoint.ofChar e).isAsciiDigit = false) : ¬CodePoint.ofChar e = d := by
    rintro rfl
    rw [he] at hd
    cases hd
  rcases digit_of_number? h with hc | ⟨rfl, d, digits, rfl, hd⟩
  · simp [literals, Text.ofString, hletter hc 'n' rfl, hletter hc 't' rfl, hletter hc 'f' rfl,
      hletter hc 'N' rfl, hletter hc 'I' rfl, hletter hc '-' rfl]
  · simp +decide [literals, Text.ofString, hletter hd 'I' rfl]

theorem scan_of_number? (h : number? (c :: rest) = some (lexeme, length)) :
    isBlank c = false ∧ ∀ offset, scan offset c rest = (lexeme, length - 1) := by
  have hplain (hc : c.isAsciiDigit = true ∨ c = CodePoint.ofChar '-') : isBlank c = false ∧
      ¬c = CodePoint.doubleQuote ∧ ¬c.val = 0x7B ∧ ¬c.val = 0x7D ∧ ¬c.val = 0x5B ∧ ¬c.val = 0x5D ∧
      ¬c = CodePoint.ofChar ':' ∧ ¬c = CodePoint.ofChar ',' := by
    rcases hc with hc | rfl
    · have hbounds : 0x30 ≤ c.val ∧ c.val ≤ 0x39 := by simpa [CodePoint.isAsciiDigit] using hc
      have hother {d : CodePoint} (hd : d.isAsciiDigit = false) : ¬c = d := by
        rintro rfl
        rw [hd] at hc
        cases hc
      refine ⟨?_, hother rfl, by omega, by omega, by omega, by omega, hother rfl, hother rfl⟩
      simp only [isBlank, Bool.or_eq_false_iff, beq_eq_false_iff_ne]
      omega
    · decide
  obtain ⟨hblank, hquote, hbrace, hbrace', hbracket, hbracket', hcolon, hcomma⟩ :=
    hplain ((digit_of_number? h).imp_right And.left)
  refine ⟨hblank, fun offset => ?_⟩
  rw [scan, if_neg hquote, if_neg hbrace, if_neg hbrace', if_neg hbracket, if_neg hbracket',
    if_neg hcolon, if_neg hcomma, literal?_of_number? h, Option.none_or, h]

end Lexeme

end EntityTable.Json
