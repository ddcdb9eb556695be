import EntityTable.Proofs.Json.Reordered

/-!
The NaNs and infinities inside a value: those of its items or members, whatever their order.
-/

namespace EntityTable.Json

variable {x : Binary64}

theorem mem_nonFiniteItems {items : List Json} :
    x ∈ nonFiniteItems items ↔ ∃ v ∈ items, x ∈ v.nonFinite := by
  induction items with
  | nil => simp [nonFiniteItems]
  | cons v rest ih => simp [nonFiniteItems, ih]

theorem mem_nonFiniteMembers {members : List (Text × Json)} :
    x ∈ nonFiniteMembers members ↔ ∃ entry ∈ members, x ∈ entry.2.nonFinite := by
  induction members with
  | nil => simp [nonFiniteMembers]
  | cons entry rest ih => simp [nonFiniteMembers, ih]

@[simp]
theorem mem_nonFinite_array {items : List Json} :
    x ∈ (Json.array items).nonFinite ↔ ∃ v ∈ items, x ∈ v.nonFinite := by
  rw [nonFinite, mem_nonFiniteItems]

@[simp]
theorem mem_nonFinite_object {members : List (Text × Json)} :
    x ∈ (Json.object members).nonFinite ↔ ∃ entry ∈ members, x ∈ entry.2.nonFinite := by
  rw [nonFinite, mem_nonFiniteMembers]

@[simp]
theorem mem_nonFinite_float {y : Binary64} :
    x ∈ (Json.float y).nonFinite ↔ x = y ∧ y.isFinite = false := by
  rw [nonFinite]
  cases hy : y.isFinite <;> simp

theorem Reordered.mem_nonFinite {v w : Json} (h : Reordered v w) :
    x ∈ v.nonFinite → x ∈ w.nonFinite := by
  refine h.induct (fun _ => id) ?_ ?_
  · intro items items' each hx
    obtain ⟨v, hv, hx⟩ := mem_nonFinite_array.mp hx
    obtain ⟨w, hw, -, hvalue⟩ := exists_of_mem_forall₂ each.flip hv
    exact mem_nonFinite_array.mpr ⟨w, hw, hvalue hx⟩
  · intro members same members' each order hx
    obtain ⟨entry, he, hx⟩ := mem_nonFinite_object.mp hx
    obtain ⟨other, ho, -, -, hvalue⟩ := exists_of_mem_forall₂ each.flip he
    exact mem_nonFinite_object.mpr ⟨other, order.mem_iff.mp ho, hvalue hx⟩

/-- The value is no NaN and no infinity. -/
def FiniteNumber : Json → Prop
  | .float x => x.isFinite = true
  | _ => True

theorem throughout_finiteNumber {v : Json} (h : v.nonFinite = []) :
    v.Throughout FiniteNumber := by
  induction throughout_true v with
  | @intro v _ _ ih =>
    rw [List.eq_nil_iff_forall_not_mem] at h
    cases v with
    | null | bool | int | string => exact .intro trivial (List.forall_mem_nil _)
    | float x =>
      have hx : ¬x.isFinite = false := fun hx => h x (mem_nonFinite_float.mpr ⟨rfl, hx⟩)
      exact .intro (eq_true_of_ne_false hx) (List.forall_mem_nil _)
    | array items =>
      refine Throughout.array_iff.mpr ⟨trivial, fun w hw => ih w hw ?_⟩
      exact List.eq_nil_iff_forall_not_mem.mpr fun x hx => h x (mem_nonFinite_array.mpr ⟨w, hw, hx⟩)
    | object members =>
      refine Throughout.object_iff.mpr
        ⟨trivial, fun entry he => ih entry.2 (List.mem_map_of_mem he) ?_⟩
      exact List.eq_nil_iff_forall_not_mem.mpr fun x hx =>
        h x (mem_nonFinite_object.mpr ⟨entry, he, hx⟩)

/-! ### Members put in place -/

section Members

variable {members : Entries Json} {key : Text}

theorem mem_nonFinite_put {v : Json} (h : x ∈ (Json.object (members.put key v)).nonFinite) :
    x ∈ v.nonFinite ∨ x ∈ (Json.object members).nonFinite := by
  obtain ⟨entry, he, hx⟩ := mem_nonFinite_object.mp h
  rcases Entries.mem_of_mem_put he with rfl | hm
  · exact .inl hx
  · exact .inr (mem_nonFinite_object.mpr ⟨entry, hm, hx⟩)

theorem mem_nonFinite_of_get? {v : Json} (hv : members.get? key = some v) (h : x ∈ v.nonFinite) :
    x ∈ (Json.object members).nonFinite :=
  mem_nonFinite_object.mpr ⟨_, Entries.mem_of_get? hv, h⟩

end Members

end EntityTable.Json
