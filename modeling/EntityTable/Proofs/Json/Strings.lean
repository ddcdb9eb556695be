import EntityTable.Json.Token
import EntityTable.Json.Writer
import EntityTable.Proofs.Text.Printable
import Mathlib.Data.List.Chain

/-!
Strings that are written read back, unless a high surrogate stands right before a low one: their
escapes would be taken for one code point.
-/

namespace EntityTable

/-- No high surrogate stands right before a low one. -/
def Text.SurrogatesApart (t : Text) : Prop :=
  t.IsChain fun c d => ¬(c.isHighSurrogate = true ∧ d.isLowSurrogate = true)

instance (t : Text) : Decidable t.SurrogatesApart := inferInstanceAs (Decidable (List.IsChain _ t))

namespace Json

open Lexeme

/-! ### Ways to write a code point -/

def unitEscape (n : Nat) : Text := CodePoint.backslash :: CodePoint.ofChar 'u' :: Text.hex 4 n

theorem unitEscape_eq (n : Nat) : Text.concat ["\\u", Text.hex 4 n] = unitEscape n := by
  simp [Text.concat, Text.ofString, unitEscape, CodePoint.backslash, CodePoint.ofChar]

inductive Escaped (c : CodePoint) : Text → Prop
  | plain (hquote : c ≠ CodePoint.doubleQuote) (hslash : c ≠ CodePoint.backslash)
      (hprintable : 0x20 ≤ c.val ∧ c.val ≤ 0x7E) : Escaped c [c]
  | short {d : CodePoint} (hunit : d ≠ CodePoint.ofChar 'u') (hmeans : shortEscape? d = some c) :
      Escaped c [CodePoint.backslash, d]
  | unit (hc : c.val < 0x10000) : Escaped c (unitEscape c.val)
  | pair {high low : Nat} (hhigh : 0xD800 ≤ high ∧ high ≤ 0xDBFF)
      (hlow : 0xDC00 ≤ low ∧ low ≤ 0xDFFF) (hmeans : joinSurrogates high low = c) :
      Escaped c (unitEscape high ++ unitEscape low)

theorem escaped_unicodeEscape (c : CodePoint) : Escaped c (unicodeEscape c) := by
  unfold unicodeEscape
  split
  · next hc =>
    rw [unitEscape_eq]
    exact .unit hc
  · next hc =>
    have hlt := c.isLt
    have hjoin : joinSurrogates (0xD800 + (c.val - 0x10000) / 0x400)
        (0xDC00 + (c.val - 0x10000) % 0x400) = c := by
      have hval : 0x10000 + (0xD800 + (c.val - 0x10000) / 0x400 - 0xD800) * 0x400 +
          (0xDC00 + (c.val - 0x10000) % 0x400 - 0xDC00) = c.val := by omega
      rw [joinSurrogates, hval, CodePoint.ofNat_val]
    have hpair := Escaped.pair (by omega) (by omega) hjoin
    simpa [Text.concat, ← unitEscape_eq] using hpair

theorem escaped_control {c d : CodePoint} {n : Nat} (hc : c.val = n)
    (hunit : d ≠ CodePoint.ofChar 'u') (hmeans : shortEscape? d = some (CodePoint.ofNat n)) :
    Escaped c [CodePoint.backslash, d] := by
  have heq : CodePoint.ofNat n = c := by rw [← hc, CodePoint.ofNat_val]
  exact .short hunit (heq ▸ hmeans)

theorem escaped_escape (c : CodePoint) : Escaped c (escape c) := by
  unfold escape
  split_ifs with hquoted hprintable hn hr ht hb hf
  · rcases hquoted with rfl | rfl
    · exact .short (by decide) (by decide)
    · exact .short (by decide) (by decide)
  · exact .plain (fun h => hquoted (.inl h)) (fun h => hquoted (.inr h)) hprintable
  · exact escaped_control hn (d := 'n') (by decide) (by decide)
  · exact escaped_control hr (d := 'r') (by decide) (by decide)
  · exact escaped_control ht (d := 't') (by decide) (by decide)
  · exact escaped_control hb (d := 'b') (by decide) (by decide)
  · exact escaped_control hf (d := 'f') (by decide) (by decide)
  · exact escaped_unicodeEscape c

theorem printable_unitEscape (n : Nat) : (unitEscape n).Printable :=
  Text.printable_cons.mpr ⟨by decide, Text.printable_cons.mpr ⟨by decide, Text.printable_hex 4 n⟩⟩

theorem Escaped.printable {c : CodePoint} {s : Text} (h : Escaped c s) : s.Printable := by
  cases h with
  | plain hquote hplain hprintable => exact List.forall_mem_singleton.mpr (.inr hprintable)
  | @short d hunit hmeans =>
    refine Text.printable_cons.mpr ⟨by decide, List.forall_mem_singleton.mpr ?_⟩
    unfold shortEscape? at hmeans
    split_ifs at hmeans with hself hb hf hn hr ht
    · rcases hself with rfl | rfl | rfl <;> decide
    · exact hb ▸ by decide
    · exact hf ▸ by decide
    · exact hn ▸ by decide
    · exact hr ▸ by decide
    · exact ht ▸ by decide
  | unit hc => exact printable_unitEscape c.val
  | pair hhigh hlow hmeans =>
    exact Text.printable_append.mpr ⟨printable_unitEscape _, printable_unitEscape _⟩

theorem printable_renderString (t : Text) : (renderString t).Printable := by
  have hbody : Text.Printable (t.flatMap escape) := by
    intro d hd
    obtain ⟨c, -, hc⟩ := List.mem_flatMap.mp hd
    exact (escaped_escape c).printable d hc
  exact Text.printable_cons.mpr ⟨by decide, Text.printable_append.mpr ⟨hbody, by decide⟩⟩

/-! ### What the lexer makes of them -/

theorem hexValue?_eq_some {digits : Text} (h : ∀ c ∈ digits, c.hexDigit?.isSome = true) :
    hexValue? digits = some digits.hexValue := by
  have hfold (n : Nat) : digits.foldl
      (fun (n? : Option Nat) c => do return 16 * (← n?) + (← c.hexDigit?)) (some n) =
        some (digits.foldl (fun n c => 16 * n + c.hexDigit?.getD 0) n) := by
    induction digits generalizing n with
    | nil => rfl
    | cons c digits ih =>
      obtain ⟨hc, hrest⟩ := List.forall_mem_cons.mp h
      obtain ⟨d, hd⟩ := Option.isSome_iff_exists.mp hc
      rw [List.foldl_cons, List.foldl_cons, hd, ← ih hrest]
      rfl
  exact hfold 0

theorem hexValue?_hex (width n : Nat) : hexValue? (Text.hex width n) = some n := by
  rw [hexValue?_eq_some fun c hc => Text.hexDigit?_of_mem_hex hc, Text.hexValue_hex]

/-- No escape of a low surrogate stands in front. -/
def StartsNoLow (s : Text) : Prop :=
  s.take 2 = "\\u" → ∃ m, hexValue? ((s.drop 2).take 4) = some m ∧
    (CodePoint.ofNat m).isLowSurrogate = false

section Parts

variable {n : Nat} {behind : Text}

theorem take_hex (hn : n < 0x10000) (behind : Text) :
    (Text.hex 4 n ++ behind).take 4 = Text.hex 4 n :=
  List.take_left' (Text.length_hex (by decide) hn)

theorem drop_hex (hn : n < 0x10000) (behind : Text) :
    (Text.hex 4 n ++ behind).drop 4 = behind :=
  List.drop_left' (Text.length_hex (by decide) hn)

theorem unicodePart_alone (hn : n < 0x10000) (hb : behind ≠ [])
    (hlow : (CodePoint.ofNat n).isHighSurrogate = true → StartsNoLow behind) :
    unicodePart (Text.hex 4 n ++ behind) = .means (CodePoint.ofNat n) 6 := by
  have hempty : behind.isEmpty = false := by simpa using hb
  unfold unicodePart
  simp only [drop_hex hn, take_hex hn, hempty, hexValue?_hex]
  split
  · next hfalse => cases hfalse
  · split
    · next hsecond =>
      obtain ⟨m, hm, hnot⟩ := hlow hsecond.1 hsecond.2.2
      simp only [hm, hnot]
      rfl
    · rfl

theorem unicodePart_pair {high low : Nat} (hhigh : 0xD800 ≤ high ∧ high ≤ 0xDBFF)
    (hlow : 0xDC00 ≤ low ∧ low ≤ 0xDFFF) (hb : behind ≠ []) :
    unicodePart (Text.hex 4 high ++ (unitEscape low ++ behind)) =
      .means (joinSurrogates high low) 12 := by
  have hempty : (unitEscape low ++ behind).isEmpty = false := rfl
  have hbehind : ((unitEscape low ++ behind).drop 6).isEmpty = false := by
    have hdrop : (unitEscape low ++ behind).drop 6 = behind :=
      drop_hex (n := low) (by omega) behind
    simpa [hdrop] using hb
  have hmark : (unitEscape low ++ behind).take 2 = "\\u" := rfl
  have hdigits : ((unitEscape low ++ behind).drop 2).take 4 = Text.hex 4 low :=
    take_hex (n := low) (by omega) behind
  have hishigh : (CodePoint.ofNat high).isHighSurrogate = true := by
    have hval : (CodePoint.ofNat high).val = high := CodePoint.val_ofNat (by omega)
    simp [CodePoint.isHighSurrogate, hval, hhigh]
  have hislow : (CodePoint.ofNat low).isLowSurrogate = true := by
    have hval : (CodePoint.ofNat low).val = low := CodePoint.val_ofNat (by omega)
    simp [CodePoint.isLowSurrogate, hval, hlow]
  unfold unicodePart
  simp only [drop_hex (n := high) (by omega), take_hex (n := high) (by omega), hempty,
    hexValue?_hex, hbehind, hmark, hdigits, hishigh, hislow]
  rfl

end Parts

theorem partAt_backslash (d : CodePoint) (after : Text) : partAt CodePoint.backslash (d :: after) =
    if d = CodePoint.ofChar 'u' then unicodePart after
    else match shortEscape? d with
      | some e => .means e 2
      | none => .wrong .badEscape 0 := rfl

/-- Each way to write a code point means it, if what stands behind is not taken along. -/
theorem partAt_escaped {c : CodePoint} {s behind : Text} (h : Escaped c s) (hb : behind ≠ [])
    (hlow : c.isHighSurrogate = true → StartsNoLow behind) :
    ∃ first others, s = first :: others ∧
      partAt first (others ++ behind) = .means c (others.length + 1) := by
  cases h with
  | plain hquote hplain hprintable =>
    refine ⟨c, [], rfl, ?_⟩
    unfold partAt
    rw [if_neg hquote, if_neg (Nat.not_lt.mpr hprintable.1), if_neg hplain]
    rfl
  | @short d hunit hmeans =>
    refine ⟨CodePoint.backslash, [d], rfl, ?_⟩
    rw [List.singleton_append, partAt_backslash, if_neg hunit, hmeans]
    rfl
  | unit hc =>
    refine ⟨CodePoint.backslash, CodePoint.ofChar 'u' :: Text.hex 4 c.val, rfl, ?_⟩
    have hpart := unicodePart_alone hc hb (by rwa [CodePoint.ofNat_val])
    have hlength : (Text.hex 4 c.val).length = 4 := Text.length_hex (by decide) hc
    rw [List.cons_append, partAt_backslash, if_pos rfl, hpart, CodePoint.ofNat_val,
      List.length_cons, hlength]
  | @pair high low hhigh hlow' hmeans =>
    refine ⟨CodePoint.backslash, CodePoint.ofChar 'u' :: (Text.hex 4 high ++ unitEscape low), rfl,
      ?_⟩
    have hpart := unicodePart_pair hhigh hlow' hb
    have hlength : (Text.hex 4 high).length = 4 := Text.length_hex (by decide) (by omega)
    have hlength' : (Text.hex 4 low).length = 4 := Text.length_hex (by decide) (by omega)
    rw [List.cons_append, List.append_assoc, partAt_backslash, if_pos rfl, hpart, hmeans]
    simp [unitEscape, hlength, hlength']

/-- What is written of a code point that is no low surrogate is no escape of one. -/
theorem startsNoLow_escaped {c : CodePoint} {s : Text} (h : Escaped c s)
    (hc : c.isLowSurrogate = false) (behind : Text) : StartsNoLow (s ++ behind) := by
  intro hstart
  cases h with
  | plain hquote hplain hprintable =>
    have hfirst : c = CodePoint.backslash := (List.cons.inj hstart).1
    exact absurd hfirst hplain
  | short hunit hmeans =>
    have hsecond := (List.cons.inj (List.cons.inj hstart).2).1
    exact absurd hsecond hunit
  | unit hc' =>
    refine ⟨c.val, ?_, by rwa [CodePoint.ofNat_val]⟩
    rw [← hexValue?_hex 4 c.val, ← take_hex hc' behind]
    rfl
  | @pair high low hhigh hlow hmeans =>
    refine ⟨high, ?_, ?_⟩
    · rw [← hexValue?_hex 4 high,
        ← take_hex (n := high) (by omega) (unitEscape low ++ behind)]
      simp [unitEscape]
    · have hval : (CodePoint.ofNat high).val = high := CodePoint.val_ofNat (by omega)
      simp only [CodePoint.isLowSurrogate, hval, Bool.and_eq_false_iff, decide_eq_false_iff_not]
      omega

/-- A string is read from behind its opening quote to its closing quote. -/
theorem stringBody_escape {t : Text} (h : Text.SurrogatesApart t) (opening offset : Nat)
    (rest : Text) :
    stringBody opening offset (t.flatMap escape ++ CodePoint.doubleQuote :: rest) =
      .ok (t, (t.flatMap escape).length + 1) := by
  induction t generalizing offset with
  | nil =>
    rw [List.flatMap_nil, List.nil_append, stringBody]
    rfl
  | cons c t ih =>
    have hrest : Text.SurrogatesApart t := h.tail
    have hb : t.flatMap escape ++ CodePoint.doubleQuote :: rest ≠ [] := by simp
    have hlow (hc : c.isHighSurrogate = true) :
        StartsNoLow (t.flatMap escape ++ CodePoint.doubleQuote :: rest) := by
      cases t with
      | nil =>
        intro hstart
        exact absurd (List.cons.inj hstart).1 (by decide)
      | cons d t =>
        have hd : d.isLowSurrogate = false := by
          simpa [hc] using (List.isChain_cons_cons.mp h).1
        rw [List.flatMap_cons, List.append_assoc]
        exact startsNoLow_escaped (escaped_escape d) hd _
    obtain ⟨first, others, hsplit, hpart⟩ := partAt_escaped (escaped_escape c) hb hlow
    rw [List.flatMap_cons, hsplit, List.append_assoc, List.cons_append, stringBody, hpart]
    dsimp only
    rw [Nat.add_sub_cancel, List.drop_left, ih hrest]
    simp only [List.cons_append, List.length_cons, List.length_append]
    show Except.ok _ = _
    congr 2
    omega

end Json
end EntityTable
