import EntityTable.Text

/-!
Text in pieces: splitting at a separator, and joining with one in between.
-/

namespace EntityTable.Text

variable {separator : CodePoint} {t : Text}

theorem split_of_not_mem (h : separator ∉ t) : t.split separator = [t] := by
  induction t with
  | nil => rfl
  | cons c t ih =>
    obtain ⟨hc, ht⟩ : separator ≠ c ∧ separator ∉ t := by simpa using h
    rw [split, if_neg (Ne.symm hc), ih ht]

theorem split_append_cons (h : separator ∉ t) (rest : Text) :
    split separator (t ++ separator :: rest) = t :: split separator rest := by
  induction t with
  | nil => rw [List.nil_append, split, if_pos rfl]
  | cons c t ih =>
    obtain ⟨hc, ht⟩ : separator ≠ c ∧ separator ∉ t := by simpa using h
    rw [List.cons_append, split, if_neg (Ne.symm hc), ih ht]

theorem not_mem_of_mem_split {piece : Text} (h : piece ∈ t.split separator) :
    separator ∉ piece := by
  induction t generalizing piece with
  | nil =>
    obtain rfl := List.mem_singleton.mp h
    simp
  | cons c t ih =>
    rw [split] at h
    split at h
    · rcases List.mem_cons.mp h with rfl | h
      · simp
      · exact ih h
    · next hc =>
      split at h
      · obtain rfl := List.mem_singleton.mp h
        simpa using Ne.symm hc
      · next first pieces heq =>
        rcases List.mem_cons.mp h with rfl | h
        · exact List.not_mem_cons_of_ne_of_not_mem (Ne.symm hc) (ih (heq ▸ List.mem_cons_self ..))
        · exact ih (heq ▸ List.mem_cons_of_mem _ h)

@[simp] theorem join_singleton (separator part : Text) : join separator [part] = part := by
  simp [join]

theorem join_cons_cons (separator first second : Text) (parts : List Text) :
    join separator (first :: second :: parts) =
      first ++ separator ++ join separator (second :: parts) := by
  simp [join, List.intersperse]

theorem join_cons (separator first : Text) (parts : List Text) :
    join separator (first :: parts) = first ++ parts.flatMap (separator ++ ·) := by
  induction parts generalizing first with
  | nil => simp
  | cons second parts ih =>
    rw [join_cons_cons, ih, List.flatMap_cons, List.append_assoc, List.append_assoc]

/-- The pieces of joined parts are the parts. -/
theorem split_join {parts : List Text} (hne : parts ≠ []) (h : ∀ part ∈ parts, separator ∉ part) :
    (join [separator] parts).split separator = parts := by
  induction parts with
  | nil => exact absurd rfl hne
  | cons part parts ih =>
    obtain ⟨hpart, hparts⟩ := List.forall_mem_cons.mp h
    cases parts with
    | nil =>
      rw [join_singleton, split_of_not_mem hpart]
    | cons next parts =>
      rw [join_cons_cons, List.append_assoc, List.singleton_append, split_append_cons hpart,
        ih (by simp) hparts]

end EntityTable.Text
