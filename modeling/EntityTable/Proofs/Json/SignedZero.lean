import EntityTable.Proofs.Json.Rendering
import Mathlib.Algebra.BigOperators.Group.List.Basic

/-!
Zero with a sign. It compares equal to plain zero and is written with one more character, so that
the text of an object tells which of the two is in it.
-/

namespace EntityTable.Json

/-- No number anywhere in the value is a negative zero. -/
def AvoidsNegativeZero (v : Json) : Prop := v.Throughout (· ≠ .float (.zero true))

namespace AvoidsNegativeZero

theorem object_iff {members : Entries Json} : (Json.object members).AvoidsNegativeZero ↔
    ∀ entry ∈ members, entry.2.AvoidsNegativeZero :=
  Throughout.object_iff.trans (and_iff_right nofun)

theorem append_iff {xs ys : Entries Json} : (Json.object (xs ++ ys)).AvoidsNegativeZero ↔
    (Json.object xs).AvoidsNegativeZero ∧ (Json.object ys).AvoidsNegativeZero := by
  simp only [object_iff, List.forall_mem_append]

theorem cons_iff {key : Text} {v : Json} {members : Entries Json} :
    (Json.object ((key, v) :: members)).AvoidsNegativeZero ↔
      v.AvoidsNegativeZero ∧ (Json.object members).AvoidsNegativeZero := by
  simp only [object_iff, List.forall_mem_cons]

theorem float_iff {x : Binary64} : (Json.float x).AvoidsNegativeZero ↔ x ≠ .zero true := by
  constructor
  · intro h heq
    exact h.here (heq ▸ rfl)
  · intro h
    exact .intro (fun heq => h (Json.float.inj heq)) (List.forall_mem_nil _)

theorem int (i : Int) : (Json.int i).AvoidsNegativeZero := .intro nofun (List.forall_mem_nil _)

theorem string (t : Text) : (Json.string t).AvoidsNegativeZero :=
  .intro nofun (List.forall_mem_nil _)

end AvoidsNegativeZero

/-! ### The length of a text -/

theorem length_join (separator : Text) (part : Text) (parts : List Text) :
    (Text.join separator (part :: parts)).length =
      ((part :: parts).map List.length).sum + separator.length * parts.length := by
  induction parts generalizing part with
  | nil => simp
  | cons next parts ih =>
    rw [Text.join_cons_cons, List.length_append, List.length_append, ih, List.map_cons,
      List.map_cons, List.sum_cons, List.sum_cons, List.length_cons, Nat.mul_succ]
    simp only [List.map_cons, List.sum_cons]
    omega

/-- What stands around and between items takes the same room however long they are. -/
theorem length_enclose_add (layout : Layout) (level : Nat) (before after : Text)
    {xs ys : List Text} (h : xs.length = ys.length) :
    (layout.enclose level before after xs).length + (ys.map List.length).sum =
      (layout.enclose level before after ys).length + (xs.map List.length).sum := by
  cases xs with
  | nil =>
    obtain rfl : ys = [] := List.eq_nil_of_length_eq_zero h.symm
    rfl
  | cons x xs =>
    cases ys with
    | nil => cases h
    | cons y ys =>
      have hcount : xs.length = ys.length := Nat.succ.inj h
      simp only [Layout.enclose, Text.concat, List.flatten_cons, List.flatten_nil,
        List.length_append, length_join, hcount]
      omega

theorem sum_length_renderMembers (layout : Layout) (level : Nat) (members : Entries Json) :
    ((renderMembers layout level members).map List.length).sum =
      (members.keys.map fun key => (renderString key).length + layout.colon.length).sum +
        (members.map fun entry => (entry.2.render layout level).length).sum := by
  rw [renderMembers_eq_map, Entries.keys, List.map_map, List.map_map, ← List.sum_map_add]
  congr 1
  refine List.map_congr_left fun entry _ => ?_
  simp [Nat.add_assoc]

/-- Objects with the same keys and the same text have values of the same length altogether. -/
theorem sum_length_of_render_eq {layout : Layout} {level : Nat} {members members' : Entries Json}
    (hkeys : members.keys = members'.keys)
    (h : (Json.object members).render layout level = (Json.object members').render layout level) :
    (members.map fun entry => (entry.2.render layout (level + 1)).length).sum =
      (members'.map fun entry => (entry.2.render layout (level + 1)).length).sum := by
  have hcount : (renderMembers layout (level + 1) members).length =
      (renderMembers layout (level + 1) members').length := by
    have hlength := congrArg List.length hkeys
    simpa [renderMembers_eq_map, Entries.keys] using hlength
  have henclosed := length_enclose_add layout level "\x7b" "\x7d" hcount
  have hsame := congrArg List.length h
  rw [render, render] at hsame
  rw [sum_length_renderMembers, sum_length_renderMembers, hkeys] at henclosed
  omega

/-- A zero takes three characters, and one more with a sign. -/
theorem length_render_zero (layout : Layout) (level : Nat) (negative : Bool) :
    ((Json.float (.zero negative)).render layout level).length = 3 + negative.toNat := by
  cases negative <;> rfl

end EntityTable.Json
