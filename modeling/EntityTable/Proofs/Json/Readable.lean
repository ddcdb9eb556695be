import EntityTable.Proofs.Entries
import EntityTable.Proofs.Json.Digits
import EntityTable.Proofs.Json.Throughout
import EntityTable.Proofs.Text.Digits

/-!
What every value that is read from a text has in common. No object in it uses a key twice, since a
key written twice keeps one entry only, and no integer in it has more digits than may be read.
-/

namespace EntityTable.Json

def Readable : Json → Prop
  | .int i => i.natAbs < 10 ^ Text.maxIntegerDigits
  | .object members => (Entries.keys members).Nodup
  | _ => True

namespace Lexeme

/-- The value of a lexeme, if it has one, is readable. -/
def Readable : Lexeme → Prop
  | .scalar v => v.Throughout Json.Readable
  | _ => True

theorem readable_literal? {s : Text} {lexeme : Lexeme} {length : Nat}
    (h : literal? s = some (lexeme, length)) : lexeme.Readable := by
  obtain ⟨⟨word, v⟩, hfind, heq⟩ := Option.map_eq_some_iff.mp h
  obtain ⟨rfl, -⟩ := Prod.mk.inj heq
  have hm := List.mem_of_find?_eq_some hfind
  simp only [literals, List.mem_cons, List.not_mem_nil, or_false, Prod.mk.injEq] at hm
  rcases hm with ⟨-, rfl⟩ | ⟨-, rfl⟩ | ⟨-, rfl⟩ | ⟨-, rfl⟩ | ⟨-, rfl⟩ | ⟨-, rfl⟩ <;>
    exact .intro trivial (List.forall_mem_nil _)

theorem readable_number? {s : Text} {lexeme : Lexeme} {length : Nat}
    (h : number? s = some (lexeme, length)) : lexeme.Readable := by
  obtain ⟨sign, -, -, -, hread⟩ := number?_eq_some h
  cases hread with
  | tooLong hlong => trivial
  | @integer i hshort hi =>
    have hdigits : Text.IsDigits (wholeDigits (s.drop sign)) :=
      fun c hc => isAsciiDigit_of_mem_wholeDigits hc
    have hbound : i.natAbs < 10 ^ Text.maxIntegerDigits :=
      hi ▸ (Text.digitsValue_lt hdigits).trans_le (Nat.pow_le_pow_right (by decide) hshort)
    exact .intro hbound (List.forall_mem_nil _)
  | float x => exact .intro trivial (List.forall_mem_nil _)

theorem readable_scan (offset : Nat) (c : CodePoint) (rest : Text) :
    (scan offset c rest).1.Readable := by
  have hquoted : (quotedString offset rest).1.Readable := by
    unfold quotedString
    split <;> trivial
  unfold scan
  split_ifs
  · exact hquoted
  any_goals trivial
  -- what is left are literals and numbers, the only lexemes with a value of their own
  split
  · next hscan =>
    rcases Option.or_eq_some_iff.mp hscan with hl | ⟨-, hnumber⟩
    · exact readable_literal? hl
    · exact readable_number? hnumber
  · trivial

end Lexeme

theorem readable_of_mem_tokens {offset : Nat} {source : Text} :
    ∀ token ∈ tokens offset source, token.lexeme.Readable := by
  intro token hm
  obtain ⟨place, c, rest, -, hscan⟩ := exists_scan_of_mem_tokens token hm
  exact hscan ▸ Lexeme.readable_scan place c rest

namespace Reader

def Frame.Readable : Frame → Prop
  | .array items => ∀ v ∈ items, v.Throughout Json.Readable
  | .member members _ => ∀ entry ∈ members, entry.2.Throughout Json.Readable

def Expected.Readable : Expected → Prop
  | .value _ => True
  | .name _ members => ∀ entry ∈ members, entry.2.Throughout Json.Readable
  | .colon members _ => ∀ entry ∈ members, entry.2.Throughout Json.Readable
  | .complete v => v.Throughout Json.Readable

/-- Everything read so far is readable, but the members of an open object may repeat a key. -/
structure State.Readable (state : State) : Prop where
  frames : ∀ frame ∈ state.frames, frame.Readable
  expected : state.expected.Readable

theorem readable_array {items : List Json} (h : ∀ v ∈ items, v.Throughout Json.Readable) :
    (Json.array items.reverse).Throughout Json.Readable :=
  Throughout.array_iff.mpr ⟨trivial, fun v hv => h v (List.mem_reverse.mp hv)⟩

/-- Closing an object settles its repeated keys. -/
theorem readable_object {members : List (Text × Json)}
    (h : ∀ entry ∈ members, entry.2.Throughout Json.Readable) :
    (object members).Throughout Json.Readable := by
  refine Throughout.object_iff.mpr ⟨Entries.nodup_keys_ofList _, fun entry he => ?_⟩
  have hm : entry ∈ members := List.mem_reverse.mp (Entries.mem_of_mem_ofList entry he)
  exact h entry hm

section Steps

variable {state after : State} {frames : List Frame} {token : Token}

theorem readable_valueStep {fresh : Bool} (hf : ∀ frame ∈ frames, frame.Readable)
    (ht : token.lexeme.Readable) (h : valueStep frames fresh token = .ok after) :
    after.Readable := by
  unfold valueStep at h
  split at h
  · obtain rfl := Except.ok.inj h
    exact ⟨hf, List.forall_mem_nil _⟩
  · obtain rfl := Except.ok.inj h
    exact ⟨List.forall_mem_cons.mpr ⟨List.forall_mem_nil _, hf⟩, trivial⟩
  · obtain rfl := Except.ok.inj h
    exact ⟨hf, .intro trivial (List.forall_mem_nil _)⟩
  · next hscalar =>
    obtain rfl := Except.ok.inj h
    rw [hscalar] at ht
    exact ⟨hf, ht⟩
  · cases h
  · cases h
  · obtain rfl := Except.ok.inj h
    exact ⟨(List.forall_mem_cons.mp hf).2, readable_array (List.forall_mem_nil _)⟩
  · cases h

theorem readable_nameStep {fresh : Bool} {members : List (Text × Json)}
    (hf : ∀ frame ∈ frames, frame.Readable)
    (hm : ∀ entry ∈ members, entry.2.Throughout Json.Readable)
    (h : nameStep frames fresh members token = .ok after) : after.Readable := by
  unfold nameStep at h
  split at h
  · obtain rfl := Except.ok.inj h
    exact ⟨hf, hm⟩
  · cases h
  · obtain rfl := Except.ok.inj h
    exact ⟨hf, readable_object (List.forall_mem_nil _)⟩
  · cases h

theorem readable_endStep {v : Json} (hf : ∀ frame ∈ frames, frame.Readable)
    (hv : v.Throughout Json.Readable) (h : endStep frames v token = .ok after) :
    after.Readable := by
  unfold endStep at h
  split at h
  · cases h
  · next items outer _ =>
    obtain ⟨hitems, houter⟩ := List.forall_mem_cons.mp hf
    obtain rfl := Except.ok.inj h
    exact ⟨List.forall_mem_cons.mpr ⟨List.forall_mem_cons.mpr ⟨hv, hitems⟩, houter⟩, trivial⟩
  · next items outer _ =>
    obtain ⟨hitems, houter⟩ := List.forall_mem_cons.mp hf
    obtain rfl := Except.ok.inj h
    exact ⟨houter, readable_array (List.forall_mem_cons.mpr ⟨hv, hitems⟩)⟩
  · obtain ⟨hmembers, houter⟩ := List.forall_mem_cons.mp hf
    obtain rfl := Except.ok.inj h
    exact ⟨houter, List.forall_mem_cons.mpr ⟨hv, hmembers⟩⟩
  · obtain ⟨hmembers, houter⟩ := List.forall_mem_cons.mp hf
    obtain rfl := Except.ok.inj h
    exact ⟨houter, readable_object (List.forall_mem_cons.mpr ⟨hv, hmembers⟩)⟩
  · cases h

theorem readable_step (hs : state.Readable) (ht : token.lexeme.Readable)
    (h : step state token = .ok after) : after.Readable := by
  obtain ⟨frames, expected⟩ := state
  obtain ⟨hf, he⟩ := hs
  cases expected with
  | value fresh => exact readable_valueStep hf ht h
  | name fresh members => exact readable_nameStep hf he h
  | colon members key =>
    simp only [step] at h
    split at h
    · obtain rfl := Except.ok.inj h
      exact ⟨List.forall_mem_cons.mpr ⟨he, hf⟩, trivial⟩
    · cases h
  | complete v => exact readable_endStep hf he h

theorem readable_foldlM_step {tokens : List Token} (hs : state.Readable)
    (ht : ∀ token ∈ tokens, token.lexeme.Readable)
    (h : tokens.foldlM step state = .ok after) : after.Readable := by
  induction tokens generalizing state with
  | nil =>
    obtain rfl := Except.ok.inj h
    exact hs
  | cons token rest ih =>
    obtain ⟨hfirst, hrest⟩ := List.forall_mem_cons.mp ht
    rw [List.foldlM_cons] at h
    obtain ⟨next, hstep, hnext⟩ := bind_eq_ok_iff.mp h
    exact ih (readable_step hs hfirst hstep) hrest hnext

end Steps

theorem readable_start : start.Readable := ⟨List.forall_mem_nil _, trivial⟩

end Reader

theorem readable_of_read {source : Text} {v : Json} (h : read source = .ok v) :
    v.Throughout Readable := by
  rw [read] at h
  split at h
  · cases h
  · obtain ⟨state, hrun, hfinish⟩ := bind_eq_ok_iff.mp h
    have hs : state.Readable :=
      Reader.readable_foldlM_step Reader.readable_start readable_of_mem_tokens hrun
    unfold Reader.finish at hfinish
    split at hfinish
    case h_4 hcomplete _ =>
      obtain rfl := Except.ok.inj hfinish
      have he := hs.expected
      rw [hcomplete] at he
      exact he
    all_goals cases hfinish

end EntityTable.Json
