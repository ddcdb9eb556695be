import EntityTable.Json

/-!
What holds of a value and of everything inside it.
-/

namespace EntityTable.Json

/-- The values right inside a value. -/
def children : Json → List Json
  | .array items => items
  | .object members => members.map Prod.snd
  | _ => []

/-- Of a value and of all that is inside it. -/
inductive Throughout (P : Json → Prop) : Json → Prop
  | intro {v : Json} (here : P v) (inside : ∀ w ∈ v.children, Throughout P w) : Throughout P v

namespace Throughout

variable {P Q : Json → Prop} {v : Json}

theorem here (h : v.Throughout P) : P v := by
  cases h with
  | intro here _ => exact here

theorem inside (h : v.Throughout P) : ∀ w ∈ v.children, w.Throughout P := by
  cases h with
  | intro _ inside => exact inside

theorem array_iff {items : List Json} : (Json.array items).Throughout P ↔
    P (.array items) ∧ ∀ v ∈ items, v.Throughout P :=
  ⟨fun h => ⟨h.here, h.inside⟩, fun h => .intro h.1 h.2⟩

theorem object_iff {members : List (Text × Json)} : (Json.object members).Throughout P ↔
    P (.object members) ∧ ∀ entry ∈ members, entry.2.Throughout P := by
  constructor
  · intro h
    exact ⟨h.here, fun entry he => h.inside entry.2 (List.mem_map_of_mem he)⟩
  · intro h
    refine .intro h.1 fun w hw => ?_
    obtain ⟨entry, he, rfl⟩ := List.mem_map.mp hw
    exact h.2 entry he

theorem imp (hPQ : ∀ w, P w → Q w) (h : v.Throughout P) : v.Throughout Q := by
  induction h with
  | intro here _ ih => exact .intro (hPQ _ here) ih

theorem and (hP : v.Throughout P) (hQ : v.Throughout Q) :
    v.Throughout fun w => P w ∧ Q w := by
  induction hP with
  | intro here _ ih => exact .intro ⟨here, hQ.here⟩ fun w hw => ih w hw (hQ.inside w hw)

end Throughout

mutual

/-- Values are finite trees: an induction over what is inside them reaches all of them. -/
theorem throughout_true : (v : Json) → v.Throughout fun _ => True
  | .null | .bool _ | .int _ | .float _ | .string _ => .intro trivial (List.forall_mem_nil _)
  | .array items => Throughout.array_iff.mpr ⟨trivial, throughout_true_items items⟩
  | .object members => Throughout.object_iff.mpr ⟨trivial, throughout_true_members members⟩

theorem throughout_true_items : (items : List Json) → ∀ v ∈ items, v.Throughout fun _ => True
  | [] => List.forall_mem_nil _
  | v :: rest => List.forall_mem_cons.mpr ⟨throughout_true v, throughout_true_items rest⟩

theorem throughout_true_members :
    (members : List (Text × Json)) → ∀ entry ∈ members, entry.2.Throughout fun _ => True
  | [] => List.forall_mem_nil _
  | (_, v) :: rest => List.forall_mem_cons.mpr ⟨throughout_true v, throughout_true_members rest⟩

end

end EntityTable.Json
