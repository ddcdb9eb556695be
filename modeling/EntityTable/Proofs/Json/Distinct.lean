import EntityTable.Proofs.Json.Readable

/-!
Values in which no object uses a key twice. Whatever is read from a text is of this kind, since a
key written twice keeps one entry only.
-/

namespace EntityTable.Json

mutual

/-- Distinct keys in every object, at any level. -/
def KeysDistinct : Json → Prop
  | .array items => ItemsDistinct items
  | .object members => (Entries.keys members).Nodup ∧ MembersDistinct members
  | _ => True

def ItemsDistinct : List Json → Prop
  | [] => True
  | v :: rest => v.KeysDistinct ∧ ItemsDistinct rest

def MembersDistinct : List (Text × Json) → Prop
  | [] => True
  | (_, v) :: rest => v.KeysDistinct ∧ MembersDistinct rest

end

theorem KeysDistinct.keys_nodup {members : List (Text × Json)}
    (h : KeysDistinct (.object members)) : (Entries.keys members).Nodup := by
  rw [KeysDistinct] at h
  exact h.1

theorem itemsDistinct_iff {items : List Json} :
    ItemsDistinct items ↔ ∀ v ∈ items, v.KeysDistinct := by
  induction items with
  | nil => simp [ItemsDistinct]
  | cons v rest ih => simp [ItemsDistinct, ih]

theorem membersDistinct_iff {members : List (Text × Json)} :
    MembersDistinct members ↔ ∀ entry ∈ members, entry.2.KeysDistinct := by
  induction members with
  | nil => simp [MembersDistinct]
  | cons entry rest ih => simp [MembersDistinct, ih]

theorem keysDistinct_of_readable {v : Json} (h : v.Throughout Readable) : v.KeysDistinct := by
  induction h with
  | @intro v here _ ih =>
    cases v with
    | null | bool | int | float | string => trivial
    | array items => exact itemsDistinct_iff.mpr ih
    | object members =>
      exact ⟨here, membersDistinct_iff.mpr fun entry he => ih entry.2 (List.mem_map_of_mem he)⟩

/-- No object of a value that was read uses a key twice. -/
theorem keysDistinct_of_read {source : Text} {v : Json} (h : read source = .ok v) :
    v.KeysDistinct :=
  keysDistinct_of_readable (readable_of_read h)

end EntityTable.Json
