import EntityTable.Text.External
import Mathlib.Data.List.Basic

/-!
Names outside the program. All bytes come back from their text, so two names are the same outside
exactly if they have one text when they come back from there.
-/

namespace EntityTable

namespace Text.Utf8

theorem follow_succ_eq_ok_iff {least greatest value good count n : Nat} {bytes : List UInt8} :
    follow least greatest value good (count + 1) bytes = .ok n ↔ ∃ b rest, bytes = b :: rest ∧
      least ≤ b.toNat ∧ b.toNat ≤ greatest ∧
        follow 0x80 0xBF (value * 0x40 + (b.toNat - 0x80)) (good + 1) count rest = .ok n := by
  cases bytes with
  | nil => simp [follow]
  | cons b rest =>
    rw [follow]
    split
    · next h => simp [h]
    · next h =>
      constructor
      · intro hn
        cases hn
      · rintro ⟨_, _, heq, hleast, hgreatest, -⟩
        obtain ⟨rfl, rfl⟩ := List.cons.inj heq
        exact absurd ⟨hleast, hgreatest⟩ h

section Encoding

variable {c : CodePoint} {v : Nat} {b b₁ b₂ b₃ : UInt8}

theorem ofNat_eq (b : UInt8) {k : Nat} (h : k = b.toNat) : UInt8.ofNat k = b := by
  rw [h, UInt8.ofNat_toNat]

theorem encode_one (h : c.val = b.toNat) (hb : b.toNat < 0x80) : encodeCodePoint c = [b] := by
  rw [encodeCodePoint, if_pos (by omega), ofNat_eq b h]

theorem encode_two (hb : b.toNat = 0xC0 + v) (hv : 2 ≤ v ∧ v < 0x20)
    (h₁ : 0x80 ≤ b₁.toNat ∧ b₁.toNat ≤ 0xBF) (h : c.val = v * 0x40 + (b₁.toNat - 0x80)) :
    encodeCodePoint c = [b, b₁] := by
  rw [encodeCodePoint, if_neg (by omega), if_pos (by omega), ofNat_eq b (by omega)]
  dsimp only
  rw [ofNat_eq b₁ (by omega)]

theorem encode_three (hb : b.toNat = 0xE0 + v) (hv : v < 0x10)
    (h₁ : 0x80 ≤ b₁.toNat ∧ b₁.toNat ≤ 0xBF) (h₂ : 0x80 ≤ b₂.toNat ∧ b₂.toNat ≤ 0xBF)
    (h : c.val = (v * 0x40 + (b₁.toNat - 0x80)) * 0x40 + (b₂.toNat - 0x80))
    (hleast : 0x800 ≤ c.val) : encodeCodePoint c = [b, b₁, b₂] := by
  rw [encodeCodePoint, if_neg (by omega), if_neg (by omega), if_pos (by omega),
    ofNat_eq b (by omega)]
  dsimp only
  rw [ofNat_eq b₁ (by omega), ofNat_eq b₂ (by omega)]

theorem encode_four (hb : b.toNat = 0xF0 + v) (h₁ : 0x80 ≤ b₁.toNat ∧ b₁.toNat ≤ 0xBF)
    (h₂ : 0x80 ≤ b₂.toNat ∧ b₂.toNat ≤ 0xBF) (h₃ : 0x80 ≤ b₃.toNat ∧ b₃.toNat ≤ 0xBF)
    (h : c.val = ((v * 0x40 + (b₁.toNat - 0x80)) * 0x40 + (b₂.toNat - 0x80)) * 0x40 +
      (b₃.toNat - 0x80)) (hleast : 0x10000 ≤ c.val) :
    encodeCodePoint c = [b, b₁, b₂, b₃] := by
  rw [encodeCodePoint, if_neg (by omega), if_neg (by omega), if_neg (by omega),
    ofNat_eq b (by omega)]
  dsimp only
  rw [ofNat_eq b₁ (by omega), ofNat_eq b₂ (by omega), ofNat_eq b₃ (by omega)]

end Encoding

/-- The scalar values are the code points that are no surrogates. -/
def IsScalar (n : Nat) : Prop := n < 0xD800 ∨ 0xE000 ≤ n ∧ n < 0x110000

/-- What the bytes of a code point say. -/
structure Decodes (b : UInt8) (lead : Lead) (rest : List UInt8) (n : Nat) : Prop where
  scalar : IsScalar n
  encode : ∀ c : CodePoint, c.val = n →
    encodeCodePoint c ++ rest.drop lead.following = b :: rest
  ascii : n < 0x80 ↔ b.toNat < 0x80

section Decoding

variable {b : UInt8} {rest : List UInt8} {n v least greatest : Nat}

theorem decodes_one (hb : b.toNat < 0x80) : Decodes b ⟨0, 0x80, 0xBF, b.toNat⟩ rest b.toNat := by
  refine ⟨.inl (by omega), fun c hc => ?_, Iff.rfl⟩
  rw [encode_one hc hb]
  rfl

theorem decodes_two (hb : b.toNat = 0xC0 + v) (hv : 2 ≤ v ∧ v < 0x20)
    (hf : follow 0x80 0xBF v 1 1 rest = .ok n) : Decodes b ⟨1, 0x80, 0xBF, v⟩ rest n := by
  obtain ⟨b₁, rest, rfl, hleast, hgreatest, hn⟩ := follow_succ_eq_ok_iff.mp hf
  obtain rfl := Except.ok.inj hn
  refine ⟨.inl (by omega), fun c hc => ?_, by omega⟩
  rw [encode_two hb hv ⟨hleast, hgreatest⟩ hc]
  rfl

theorem decodes_three (hb : b.toNat = 0xE0 + v) (hv : v < 0x10) (hl : 0x80 ≤ least)
    (hg : greatest ≤ 0xBF) (hzero : v = 0 → 0xA0 ≤ least) (hd : v = 0xD → greatest ≤ 0x9F)
    (hf : follow least greatest v 1 2 rest = .ok n) :
    Decodes b ⟨2, least, greatest, v⟩ rest n := by
  obtain ⟨b₁, _, rfl, hleast, hgreatest, hf⟩ := follow_succ_eq_ok_iff.mp hf
  obtain ⟨b₂, rest, rfl, hleast₂, hgreatest₂, hn⟩ := follow_succ_eq_ok_iff.mp hf
  obtain rfl := Except.ok.inj hn
  refine ⟨?_, fun c hc => ?_, by omega⟩
  · unfold IsScalar
    omega
  · rw [encode_three hb hv (by omega) ⟨hleast₂, hgreatest₂⟩ hc (by omega)]
    rfl

theorem decodes_four (hb : b.toNat = 0xF0 + v) (hv : v ≤ 4) (hl : 0x80 ≤ least)
    (hg : greatest ≤ 0xBF) (hzero : v = 0 → 0x90 ≤ least) (hfour : v = 4 → greatest ≤ 0x8F)
    (hf : follow least greatest v 1 3 rest = .ok n) :
    Decodes b ⟨3, least, greatest, v⟩ rest n := by
  obtain ⟨b₁, _, rfl, hleast, hgreatest, hf⟩ := follow_succ_eq_ok_iff.mp hf
  obtain ⟨b₂, _, rfl, hleast₂, hgreatest₂, hf⟩ := follow_succ_eq_ok_iff.mp hf
  obtain ⟨b₃, rest, rfl, hleast₃, hgreatest₃, hn⟩ := follow_succ_eq_ok_iff.mp hf
  obtain rfl := Except.ok.inj hn
  refine ⟨.inr (by omega), fun c hc => ?_, by omega⟩
  rw [encode_four hb (by omega) ⟨hleast₂, hgreatest₂⟩ ⟨hleast₃, hgreatest₃⟩ hc (by omega)]
  rfl

/-- Whatever is decoded is encoded with the bytes it came from. -/
theorem decodes_of_follow {lead : Lead} (hl : lead? b.toNat = some lead)
    (hf : follow lead.least lead.greatest lead.payload 1 lead.following rest = .ok n) :
    Decodes b lead rest n := by
  unfold lead? at hl
  split at hl
  · next hb =>
    obtain rfl := Option.some.inj hl
    obtain rfl := Except.ok.inj hf
    exact decodes_one hb
  split at hl
  · cases hl
  split at hl
  · obtain rfl := Option.some.inj hl
    exact decodes_two (by omega) (by omega) hf
  -- three bytes, the first of which narrows the bounds for the second
  split at hl
  · obtain rfl := Option.some.inj hl
    exact decodes_three (by omega) (by omega) (by omega) (by omega) (by omega) (by omega) hf
  split at hl
  · obtain rfl := Option.some.inj hl
    exact decodes_three (by omega) (by omega) (by omega) (by omega) (by omega) (by omega) hf
  split at hl
  · obtain rfl := Option.some.inj hl
    exact decodes_three (by omega) (by omega) (by omega) (by omega) (by omega) (by omega) hf
  -- four bytes in the same way
  split at hl
  · obtain rfl := Option.some.inj hl
    exact decodes_four (by omega) (by omega) (by omega) (by omega) (by omega) (by omega) hf
  split at hl
  · obtain rfl := Option.some.inj hl
    exact decodes_four (by omega) (by omega) (by omega) (by omega) (by omega) (by omega) hf
  split at hl
  · obtain rfl := Option.some.inj hl
    exact decodes_four (by omega) (by omega) (by omega) (by omega) (by omega) (by omega) hf
  · cases hl

end Decoding

end Text.Utf8

namespace CodePoint

theorem val_ofNat {n : Nat} (h : n < 0x110000) : (ofNat n).val = n := by rw [ofNat, dif_pos h]

theorem ofNat_val (c : CodePoint) : ofNat c.val = c := by rw [ofNat, dif_pos c.isLt]

theorem val_ofNat_of_isScalar {n : Nat} (h : Text.Utf8.IsScalar n) : (ofNat n).val = n := by
  have hn : n < 0x110000 := by
    unfold Text.Utf8.IsScalar at h
    omega
  exact val_ofNat hn

theorem toExternal_of_isScalar {n : Nat} (h : Text.Utf8.IsScalar n) :
    (ofNat n).toExternal = Text.Utf8.encodeCodePoint (ofNat n) := by
  have hval := val_ofNat_of_isScalar h
  have hescape : ¬(ofNat n).isByteEscape = true := by
    unfold Text.Utf8.IsScalar at h
    simp only [isByteEscape, hval, Bool.and_eq_true, decide_eq_true_eq]
    omega
  rw [toExternal, if_neg hescape]

theorem toExternal_escapeOfByte {b : UInt8} (h : 0x80 ≤ b.toNat) :
    (escapeOfByte b).toExternal = [b] := by
  have hb := b.toNat_lt
  have hval : (escapeOfByte b).val = 0xDC00 + b.toNat := by
    exact val_ofNat (by omega)
  have hescape : (escapeOfByte b).isByteEscape = true := by
    simp only [isByteEscape, hval, Bool.and_eq_true, decide_eq_true_eq]
    omega
  rw [toExternal, if_pos hescape, hval, Nat.add_sub_cancel_left, UInt8.ofNat_toNat]

end CodePoint

namespace Text

theorem toExternal_cons (c : CodePoint) (t : Text) :
    toExternal (c :: t) = c.toExternal ++ t.toExternal := List.flatMap_cons ..

theorem toExternal_append (s t : Text) : toExternal (s ++ t) = s.toExternal ++ t.toExternal :=
  List.flatMap_append ..

/-- All bytes have a text that stands for them. -/
theorem toExternal_ofExternal (bytes : List UInt8) : (ofExternal bytes).toExternal = bytes := by
  induction bytes using ofExternal.induct with
  | case1 => rw [ofExternal]; rfl
  | case2 b rest hl ih =>
    have hb : 0x80 ≤ b.toNat := by
      by_contra hlt
      simp [Utf8.lead?, show b.toNat < 0x80 by omega] at hl
    rw [ofExternal, hl]
    show toExternal (CodePoint.escapeOfByte b :: ofExternal rest) = _
    rw [toExternal_cons, CodePoint.toExternal_escapeOfByte hb, ih]
    rfl
  | case3 b rest lead hl fault hf ih =>
    have hb : 0x80 ≤ b.toNat := by
      by_contra hlt
      rw [Utf8.lead?, if_pos (by omega)] at hl
      obtain rfl := Option.some.inj hl
      cases hf
    rw [ofExternal, hl]
    dsimp only
    rw [hf]
    show toExternal (CodePoint.escapeOfByte b :: ofExternal rest) = _
    rw [toExternal_cons, CodePoint.toExternal_escapeOfByte hb, ih]
    rfl
  | case4 b rest lead hl n hf ih =>
    have hdecodes := Utf8.decodes_of_follow hl hf
    rw [ofExternal, hl]
    dsimp only
    rw [hf]
    show toExternal (CodePoint.ofNat n :: ofExternal (rest.drop lead.following)) = _
    rw [toExternal_cons, CodePoint.toExternal_of_isScalar hdecodes.scalar, ih]
    exact hdecodes.encode _ (CodePoint.val_ofNat_of_isScalar hdecodes.scalar)

/-- Names have one text outside exactly if they have the same bytes. -/
theorem external_eq_iff {s t : Text} : s.external = t.external ↔ s.toExternal = t.toExternal := by
  constructor
  · intro h
    have hbytes := congrArg toExternal h
    rwa [external, external, toExternal_ofExternal, toExternal_ofExternal] at hbytes
  · intro h
    rw [external, external, h]

@[simp] theorem external_external (t : Text) : t.external.external = t.external := by
  rw [external_eq_iff, external, toExternal_ofExternal]

/-! ### ASCII names -/

theorem toExternal_of_isAscii {c : CodePoint} (h : c.isAscii = true) :
    c.toExternal = [UInt8.ofNat c.val] := by
  have hval : c.val < 0x80 := of_decide_eq_true h
  have hescape : ¬c.isByteEscape = true := by
    simp only [CodePoint.isByteEscape, Bool.and_eq_true, decide_eq_true_eq]
    omega
  rw [CodePoint.toExternal, if_neg hescape, Utf8.encodeCodePoint, if_pos hval]

theorem toNat_ofNat_byte {k : Nat} (hk : k < 0x100) : (UInt8.ofNat k).toNat = k :=
  UInt8.toNat_ofNat_of_lt' hk

theorem le_toNat_ofNat {k n : Nat} (hk : k < 0x100) (hn : n ≤ k) : n ≤ (UInt8.ofNat k).toNat := by
  rwa [toNat_ofNat_byte hk]

/-- Only ASCII itself is written with ASCII bytes. -/
theorem exists_toExternal_of_not_isAscii {c : CodePoint} (h : ¬c.isAscii = true) :
    ∃ b bytes, c.toExternal = b :: bytes ∧ 0x80 ≤ b.toNat := by
  have hval : 0x80 ≤ c.val := by simpa [CodePoint.isAscii] using h
  have hlt := c.isLt
  unfold CodePoint.toExternal
  split
  · next hescape =>
    simp only [CodePoint.isByteEscape, Bool.and_eq_true, decide_eq_true_eq] at hescape
    exact ⟨_, _, rfl, le_toNat_ofNat (by omega) (by omega)⟩
  · rw [Utf8.encodeCodePoint, if_neg (by omega)]
    split
    · exact ⟨_, _, rfl, le_toNat_ofNat (by omega) (by omega)⟩
    · split
      · exact ⟨_, _, rfl, le_toNat_ofNat (by omega) (by omega)⟩
      · exact ⟨_, _, rfl, le_toNat_ofNat (by omega) (by omega)⟩

theorem exists_toExternal_eq_cons (c : CodePoint) : ∃ b bytes, c.toExternal = b :: bytes := by
  by_cases h : c.isAscii = true
  · exact ⟨_, _, toExternal_of_isAscii h⟩
  · obtain ⟨b, bytes, heq, -⟩ := exists_toExternal_of_not_isAscii h
    exact ⟨b, bytes, heq⟩

/-- The bytes of ASCII are those of no other text. -/
theorem toExternal_eq_iff_of_isAscii {s t : Text} (h : ∀ c ∈ s, c.isAscii = true) :
    t.toExternal = s.toExternal ↔ t = s := by
  refine ⟨fun heq => ?_, fun heq => congrArg _ heq⟩
  induction s generalizing t with
  | nil =>
    cases t with
    | nil => rfl
    | cons d t =>
      obtain ⟨b, bytes, hd⟩ := exists_toExternal_eq_cons d
      rw [toExternal_cons, hd] at heq
      cases heq
  | cons c s ih =>
    obtain ⟨hc, hs⟩ := List.forall_mem_cons.mp h
    have hcval : c.val < 0x80 := of_decide_eq_true hc
    cases t with
    | nil =>
      rw [toExternal_cons, toExternal_of_isAscii hc] at heq
      cases heq
    | cons d t =>
      rw [toExternal_cons, toExternal_cons, toExternal_of_isAscii hc] at heq
      by_cases hd : d.isAscii = true
      · have hdval : d.val < 0x80 := of_decide_eq_true hd
        rw [toExternal_of_isAscii hd] at heq
        obtain ⟨hfirst, hrest⟩ := List.cons.inj heq
        have hvals := congrArg UInt8.toNat hfirst
        rw [toNat_ofNat_byte (by omega), toNat_ofNat_byte (by omega)] at hvals
        obtain rfl : d = c := by
          cases d
          cases c
          congr
        rw [ih hs hrest]
      · obtain ⟨b, bytes, hbytes, hb⟩ := exists_toExternal_of_not_isAscii hd
        rw [hbytes] at heq
        obtain ⟨rfl, -⟩ := List.cons.inj heq
        rw [toNat_ofNat_byte (by omega)] at hb
        omega

/-- A name stands outside for an ASCII text only if it is that text. -/
theorem external_eq_iff_of_isAscii {s t : Text} (h : ∀ c ∈ s, c.isAscii = true) :
    t.external = s ↔ t = s := by
  rw [← toExternal_eq_iff_of_isAscii (t := t) h]
  constructor
  · intro heq
    rw [← heq, external, toExternal_ofExternal]
  · intro heq
    rw [external, heq, ← toExternal_eq_iff_of_isAscii h, toExternal_ofExternal]

end Text
end EntityTable
