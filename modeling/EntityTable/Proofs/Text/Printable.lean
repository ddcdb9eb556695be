import EntityTable.Proofs.Text.Digits
import EntityTable.Proofs.Text.External
import EntityTable.Proofs.Text.Pieces

/-!
Printable ASCII on lines that end in `\n`. Such a text comes back from a file as it was written:
every code point is a byte of its own, and there is no `\r` to translate.
-/

namespace EntityTable

def CodePoint.IsPrintable (c : CodePoint) : Prop := c.val = 0x0A ∨ 0x20 ≤ c.val ∧ c.val ≤ 0x7E

instance (c : CodePoint) : Decidable c.IsPrintable := inferInstanceAs (Decidable (_ ∨ _))

def Text.Printable (t : Text) : Prop := ∀ c ∈ t, c.IsPrintable

instance (t : Text) : Decidable t.Printable := inferInstanceAs (Decidable (∀ c ∈ t, c.IsPrintable))

namespace Text

variable {s t : Text}

theorem printable_append : Printable (s ++ t) ↔ Printable s ∧ Printable t :=
  List.forall_mem_append

theorem printable_cons {c : CodePoint} : Printable (c :: t) ↔ c.IsPrintable ∧ Printable t :=
  List.forall_mem_cons

theorem printable_of_isDigits (h : IsDigits t) : Printable t := by
  intro c hc
  have hdigit := h c hc
  simp only [CodePoint.isAsciiDigit, Bool.and_eq_true, decide_eq_true_eq] at hdigit
  exact .inr (by omega)

theorem printable_hex (width n : Nat) : Printable (hex width n) := by
  intro c hc
  have hdigit := hexDigit?_of_mem_hex hc
  unfold CodePoint.hexDigit? at hdigit
  split at hdigit
  · next hd =>
    simp only [CodePoint.isAsciiDigit, Bool.and_eq_true, decide_eq_true_eq] at hd
    exact .inr (by omega)
  · split at hdigit
    · exact .inr (by omega)
    · split at hdigit
      · exact .inr (by omega)
      · cases hdigit

theorem printable_join {separator : Text} (hs : separator.Printable) {parts : List Text}
    (hp : ∀ part ∈ parts, Printable part) : (join separator parts).Printable := by
  induction parts with
  | nil => exact List.forall_mem_nil _
  | cons part parts ih =>
    obtain ⟨hpart, hrest⟩ := List.forall_mem_cons.mp hp
    cases parts with
    | nil => simpa using hpart
    | cons next parts =>
      rw [join_cons_cons, printable_append, printable_append]
      exact ⟨⟨hpart, hs⟩, ih hrest⟩

theorem ofUtf8_toUtf8 (h : t.Printable) : ofUtf8 t.toUtf8 = .ok t := by
  have hdecode (position : Nat) : Utf8.decodeFrom position t.toUtf8 = .ok t := by
    induction t generalizing position with
    | nil => exact Utf8.decodeFrom.eq_1 position
    | cons c t ih =>
      obtain ⟨hc, ht⟩ := printable_cons.mp h
      have hval : c.val < 0x80 := by
        unfold CodePoint.IsPrintable at hc
        omega
      have hbyte : (UInt8.ofNat c.val).toNat = c.val := toNat_ofNat_byte (by omega)
      rw [toUtf8, List.flatMap_cons, Utf8.encodeCodePoint, if_pos hval, List.singleton_append,
        Utf8.decodeFrom, hbyte, Utf8.lead?, if_pos hval]
      simp only [Utf8.follow, List.drop_zero, CodePoint.ofNat_val]
      rw [← toUtf8, ih ht]
      rfl
  exact hdecode 0

theorem unifyNewlines_of_printable (h : t.Printable) : t.unifyNewlines = t := by
  unfold unifyNewlines
  induction t with
  | nil => rfl
  | cons c t ih =>
    obtain ⟨hc, ht⟩ := printable_cons.mp h
    have hreturn : ¬c = CodePoint.ofChar '\r' := by
      rintro rfl
      exact absurd hc (by decide)
    rw [unifyNewlinesFrom, if_neg (by simp), if_neg hreturn, ih ht]

end Text
end EntityTable
