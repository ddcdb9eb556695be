import EntityTable.Json.Reader
import EntityTable.Proofs.Outcome
import Mathlib.Data.List.TakeWhile

/-!
Integers past the digit limit. The reader gives up on a text for its digits only if that many of
them stand in the text one behind the other.
-/

namespace EntityTable

/-- More ASCII digits in a row than an integer may have, `n` of them. -/
def Text.HasLongRun (t : Text) (n : Nat) : Prop :=
  Text.maxIntegerDigits < n ∧
    ∃ digits : Text, digits <:+: t ∧ digits.length = n ∧ ∀ c ∈ digits, c.isAsciiDigit = true

theorem Text.HasLongRun.mono {s t : Text} {n : Nat} (h : s.HasLongRun n) (hst : s <:+: t) :
    t.HasLongRun n := by
  obtain ⟨hlong, digits, hinfix, hlength, hdigits⟩ := h
  exact ⟨hlong, digits, hinfix.trans hst, hlength, hdigits⟩

namespace Json

namespace Lexeme

theorem wholeDigits_prefix (s : Text) : wholeDigits s <+: s := by
  unfold wholeDigits
  split
  · exact List.take_prefix 1 s
  · exact List.takeWhile_prefix _

theorem isAsciiDigit_of_mem_wholeDigits {s : Text} {c : CodePoint} (h : c ∈ wholeDigits s) :
    c.isAsciiDigit = true := by
  unfold wholeDigits at h
  split at h
  · next hzero =>
    cases s with
    | nil => cases h
    | cons first rest =>
      have hfirst : first = CodePoint.ofChar '0' := Option.some.inj hzero
      have hc : c = first := by simpa using h
      rw [hc, hfirst]
      decide
  · exact List.mem_takeWhile_imp h

/-- What a number with these digits in front can be read as. -/
inductive ReadAs (whole : Text) : Lexeme → Prop
  | tooLong (hlong : Text.maxIntegerDigits < whole.length) :
      ReadAs whole (.longInteger whole.length)
  | integer {i : Int} (hshort : whole.length ≤ Text.maxIntegerDigits)
      (hi : i.natAbs = Text.digitsValue whole) : ReadAs whole (.scalar (.int i))
  | float (x : Binary64) : ReadAs whole (.scalar (.float x))

/-- The digits of a number stand at its start or behind a minus. -/
theorem number?_eq_some {s : Text} {lexeme : Lexeme} {length : Nat}
    (h : number? s = some (lexeme, length)) : ∃ sign,
      (s.head? = some (CodePoint.ofChar '-') ∧ sign = 1 ∨ sign = 0) ∧
      wholeDigits (s.drop sign) ≠ [] ∧ (wholeDigits (s.drop sign)).length ≤ length ∧
      ReadAs (wholeDigits (s.drop sign)) lexeme := by
  unfold number? at h
  extract_lets negative sign whole fraction point width exponent? value at h
  have hsign : s.head? = some (CodePoint.ofChar '-') ∧ sign = 1 ∨ sign = 0 := by
    by_cases hnegative : negative
    · exact .inl ⟨hnegative, if_pos hnegative⟩
    · exact .inr (if_neg hnegative)
  have hwidth : whole.length ≤ width := by omega
  split at h
  · cases h
  · next hne =>
    refine ⟨sign, hsign, by simpa using hne, ?_⟩
    split at h
    · split at h
      · next hlong =>
        obtain ⟨rfl, rfl⟩ := Prod.mk.inj (Option.some.inj h)
        exact ⟨hwidth, .tooLong hlong⟩
      · next hshort =>
        obtain ⟨rfl, rfl⟩ := Prod.mk.inj (Option.some.inj h)
        refine ⟨hwidth, .integer (Nat.le_of_not_lt hshort) ?_⟩
        split
        · rw [Int.natAbs_neg, Int.natAbs_natCast]
        · rw [Int.natAbs_natCast]
    · obtain ⟨rfl, rfl⟩ := Prod.mk.inj (Option.some.inj h)
      exact ⟨hwidth.trans (Nat.le_add_right _ _), .float _⟩

theorem hasLongRun_of_number? {s : Text} {n length : Nat}
    (h : number? s = some (.longInteger n, length)) : s.HasLongRun n := by
  obtain ⟨sign, -, -, -, hread⟩ := number?_eq_some h
  cases hread with
  | tooLong hlong =>
    have hprefix := wholeDigits_prefix (s.drop sign)
    refine ⟨hlong, wholeDigits (s.drop sign), ?_, rfl, fun c hc => ?_⟩
    · exact hprefix.isInfix.trans (List.drop_suffix sign s).isInfix
    · exact isAsciiDigit_of_mem_wholeDigits hc

theorem hasLongRun_of_scan {offset n : Nat} {c : CodePoint} {rest : Text}
    (h : (scan offset c rest).1 = .longInteger n) : Text.HasLongRun (c :: rest) n := by
  have hquoted : (quotedString offset rest).1 ≠ .longInteger n := by
    unfold quotedString
    split <;> simp
  have hliteral {length : Nat} : literal? (c :: rest) ≠ some (.longInteger n, length) := by
    intro hsome
    obtain ⟨entry, -, heq⟩ := Option.map_eq_some_iff.mp hsome
    cases heq
  unfold scan at h
  split_ifs at h
  · exact absurd h hquoted
  · -- what is left are literals and numbers
    split at h
    · next hscan =>
      obtain rfl := h
      rcases Option.or_eq_some_iff.mp hscan with hl | ⟨-, hnumber⟩
      · exact absurd hl hliteral
      · exact hasLongRun_of_number? hnumber
    · cases h

end Lexeme

/-- Every token has been scanned from some place in the text on. -/
theorem exists_scan_of_mem_tokens {offset : Nat} {source : Text} :
    ∀ token ∈ tokens offset source, ∃ place c rest,
      c :: rest <:+ source ∧ (Lexeme.scan place c rest).1 = token.lexeme := by
  fun_induction tokens offset source with
  | case1 => simp
  | case2 offset c rest hblank ih =>
    intro token hm
    obtain ⟨place, d, behind, hsuffix, hscan⟩ := ih token hm
    exact ⟨place, d, behind, hsuffix.trans (List.suffix_cons c rest), hscan⟩
  | case3 offset c rest hblank lexeme extra hscan href =>
    intro token hm
    obtain rfl := List.mem_singleton.mp hm
    exact ⟨offset, c, rest, List.suffix_rfl, congrArg Prod.fst hscan⟩
  | case4 offset c rest hblank lexeme extra hscan href ih =>
    intro token hm
    rcases List.mem_cons.mp hm with rfl | hm
    · exact ⟨offset, c, rest, List.suffix_rfl, congrArg Prod.fst hscan⟩
    · obtain ⟨place, d, behind, hsuffix, hscan⟩ := ih token hm
      have hrest : rest.drop extra <:+ c :: rest :=
        (List.drop_suffix extra rest).trans (List.suffix_cons c rest)
      exact ⟨place, d, behind, hsuffix.trans hrest, hscan⟩

theorem hasLongRun_of_mem_tokens {offset : Nat} {source : Text} {n : Nat} {token : Token}
    (hm : token ∈ tokens offset source) (hlong : token.lexeme = .longInteger n) :
    source.HasLongRun n := by
  obtain ⟨place, c, rest, hsuffix, hscan⟩ := exists_scan_of_mem_tokens token hm
  exact (Lexeme.hasLongRun_of_scan (hscan.trans hlong)).mono hsuffix.isInfix

namespace Reader

section Steps

variable {state : State} {token : Token} {n : Nat}

/-- Only a value can be a long integer. -/
theorem longInteger_of_step (h : step state token = .error (.integerTooLong n)) :
    token.lexeme = .longInteger n := by
  unfold step at h
  split at h
  · unfold valueStep at h
    split at h <;> try cases h
    assumption
  · unfold nameStep at h
    split at h <;> cases h
  · split at h <;> cases h
  · unfold endStep at h
    split at h <;> cases h

theorem exists_longInteger_of_foldlM {tokens : List Token}
    (h : tokens.foldlM step state = .error (.integerTooLong n)) :
    ∃ token ∈ tokens, token.lexeme = .longInteger n := by
  induction tokens generalizing state with
  | nil => cases h
  | cons token rest ih =>
    rw [List.foldlM_cons] at h
    rcases bind_eq_error_iff.mp h with hfirst | ⟨next, -, hrest⟩
    · exact ⟨token, List.mem_cons_self .., longInteger_of_step hfirst⟩
    · obtain ⟨later, hm, hlong⟩ := ih hrest
      exact ⟨later, List.mem_cons_of_mem _ hm, hlong⟩

theorem finish_ne_integerTooLong {offset : Nat} :
    finish offset state ≠ .error (.integerTooLong n) := by
  unfold finish
  split <;> simp

end Steps

end Reader

theorem hasLongRun_of_read {source : Text} {n : Nat}
    (h : read source = .error (.integerTooLong n)) : source.HasLongRun n := by
  rw [read] at h
  split at h
  · cases h
  · rcases bind_eq_error_iff.mp h with hrun | ⟨state, -, hfinish⟩
    · obtain ⟨token, hm, hlong⟩ := Reader.exists_longInteger_of_foldlM hrun
      exact hasLongRun_of_mem_tokens hm hlong
    · exact absurd hfinish Reader.finish_ne_integerTooLong

end Json
end EntityTable
