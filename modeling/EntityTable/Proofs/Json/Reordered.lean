import EntityTable.Proofs.Json.Distinct
import EntityTable.Proofs.Outcome
import Mathlib.Data.List.Perm.Basic

/-!
Values that differ only in the order in which objects list their entries. Lookup does not see the
difference, and sorting the keys removes it.
-/

namespace EntityTable

namespace Text

theorem le_antisymm {s t : Text} (hst : s.le t) (hts : t.le s) : s = t := by
  induction s generalizing t with
  | nil =>
    cases t with
    | nil => rfl
    | cons b t => simp [le] at hts
  | cons a s ih =>
    cases t with
    | nil => simp [le] at hst
    | cons b t =>
      simp only [le, Bool.or_eq_true, Bool.and_eq_true, decide_eq_true_eq] at hst hts
      have hval : a.val = b.val := by omega
      have hrest : s = t := ih (by grind) (by grind)
      obtain ⟨_, _⟩ := a
      obtain ⟨_, _⟩ := b
      subst hrest
      obtain rfl := hval
      rfl

theorem le_total (s t : Text) : s.le t ∨ t.le s := by
  induction s generalizing t with
  | nil => simp [le]
  | cons a s ih =>
    cases t with
    | nil => simp [le]
    | cons b t =>
      simp only [le, Bool.or_eq_true, Bool.and_eq_true, decide_eq_true_eq]
      rcases ih t with h | h <;> grind

theorem le_trans {s t u : Text} (hst : s.le t) (htu : t.le u) : s.le u := by
  induction s generalizing t u with
  | nil => simp [le]
  | cons a s ih =>
    cases t with
    | nil => simp [le] at hst
    | cons b t =>
      cases u with
      | nil => simp [le] at htu
      | cons c u =>
        simp only [le, Bool.or_eq_true, Bool.and_eq_true, decide_eq_true_eq] at hst htu ⊢
        rcases hst with hst | ⟨hab, hst⟩
        · omega
        · rcases htu with htu | ⟨hbc, htu⟩
          · omega
          · exact .inr ⟨hab.trans hbc, ih hst htu⟩

end Text

namespace Json

mutual

/-- Equal up to the order of entries in objects, at every level. -/
inductive Reordered : Json → Json → Prop
  | null : Reordered .null .null
  | bool (b : Bool) : Reordered (.bool b) (.bool b)
  | int (i : Int) : Reordered (.int i) (.int i)
  | float (x : Binary64) : Reordered (.float x) (.float x)
  | string (t : Text) : Reordered (.string t) (.string t)
  | array {items items' : List Json} (each : ItemsReordered items items') :
      Reordered (.array items) (.array items')
  | object {members same members' : List (Text × Json)} (each : MembersReordered members same)
      (order : same.Perm members') : Reordered (.object members) (.object members')

/-- Lists keep their order. -/
inductive ItemsReordered : List Json → List Json → Prop
  | nil : ItemsReordered [] []
  | cons {v w : Json} {rest rest' : List Json} (first : Reordered v w)
      (others : ItemsReordered rest rest') : ItemsReordered (v :: rest) (w :: rest')

inductive MembersReordered : List (Text × Json) → List (Text × Json) → Prop
  | nil : MembersReordered [] []
  | cons (key : Text) {v w : Json} {rest rest' : List (Text × Json)} (first : Reordered v w)
      (others : MembersReordered rest rest') :
      MembersReordered ((key, v) :: rest) ((key, w) :: rest')

end

theorem itemsReordered_iff {items items' : List Json} :
    ItemsReordered items items' ↔ List.Forall₂ Reordered items items' := by
  constructor
  · intro h
    induction items generalizing items' with
    | nil =>
      cases h
      exact .nil
    | cons v rest ih =>
      cases h with
      | cons first others => exact .cons first (ih others)
  · intro h
    induction h with
    | nil => exact .nil
    | cons first _ ih => exact .cons first ih

theorem membersReordered_iff {members members' : List (Text × Json)} :
    MembersReordered members members' ↔
      List.Forall₂ (fun x y => y.1 = x.1 ∧ Reordered x.2 y.2) members members' := by
  constructor
  · intro h
    induction members generalizing members' with
    | nil =>
      cases h
      exact .nil
    | cons entry rest ih =>
      cases h with
      | cons key first others => exact .cons ⟨rfl, first⟩ (ih others)
  · intro h
    induction h with
    | nil => exact .nil
    | @cons x y _ _ first _ ih =>
      obtain ⟨k, v⟩ := x
      obtain ⟨k', w⟩ := y
      obtain ⟨rfl, hfirst⟩ := first
      exact .cons _ hfirst ih

theorem keys_perm_of_reordered {members members' : List (Text × Json)}
    (h : Reordered (.object members) (.object members')) :
    (Entries.keys members).Perm (Entries.keys members') := by
  cases h with
  | object each order =>
    rw [← keys_eq_of_forall₂ (membersReordered_iff.mp each) fun _ _ hr => hr.1]
    exact order.map Prod.fst

theorem Reordered.refl (v : Json) : Reordered v v := by
  induction throughout_true v with
  | @intro v _ _ ih =>
    cases v with
    | null => exact .null
    | bool b => exact .bool b
    | int i => exact .int i
    | float x => exact .float x
    | string t => exact .string t
    | array items => exact .array (itemsReordered_iff.mpr (List.forall₂_same.mpr ih))
    | object members =>
      refine .object (membersReordered_iff.mpr (List.forall₂_same.mpr fun entry he => ?_)) (.refl _)
      exact ⟨rfl, ih entry.2 (List.mem_map_of_mem he)⟩

theorem MembersReordered.refl (members : List (Text × Json)) : MembersReordered members members :=
  membersReordered_iff.mpr (List.forall₂_same.mpr fun entry _ => ⟨rfl, .refl entry.2⟩)

/-- An induction over two values at once, for what holds of every value and itself. -/
@[elab_as_elim]
theorem Reordered.induct {motive : Json → Json → Prop} {v w : Json} (h : Reordered v w)
    (refl : ∀ v, motive v v)
    (array : ∀ items items', List.Forall₂ (fun v w => Reordered v w ∧ motive v w) items items' →
      motive (.array items) (.array items'))
    (object : ∀ members same members', List.Forall₂
      (fun x y => y.1 = x.1 ∧ Reordered x.2 y.2 ∧ motive x.2 y.2) members same →
        same.Perm members' → motive (.object members) (.object members')) : motive v w := by
  induction throughout_true v generalizing w with
  | @intro v _ _ ih =>
    cases h with
    | null | bool | int | float | string => exact refl _
    | @array items items' each =>
      have hmotive : ∀ v ∈ items, ∀ w, Reordered v w → motive v w := fun v hv w => ih v hv
      have hboth := (List.forall₂_and_left _ _).mpr ⟨hmotive, itemsReordered_iff.mp each⟩
      exact array items items' (hboth.imp fun v w hr => ⟨hr.2, hr.1 w hr.2⟩)
    | @object members same members' each order =>
      have hmotive : ∀ entry ∈ members, ∀ w, Reordered entry.2 w → motive entry.2 w :=
        fun entry he w => ih entry.2 (List.mem_map_of_mem he)
      have hboth := (List.forall₂_and_left _ _).mpr ⟨hmotive, membersReordered_iff.mp each⟩
      exact object members same members'
        (hboth.imp fun x y hr => ⟨hr.2.1, hr.2.2, hr.1 y.2 hr.2.2⟩) order

theorem Reordered.keysDistinct {v w : Json} (h : Reordered v w) :
    v.KeysDistinct → w.KeysDistinct := by
  refine h.induct (fun _ => id) ?_ ?_
  · intro items items' each hd
    refine itemsDistinct_iff.mpr fun w hw => ?_
    obtain ⟨v, hv, -, hvw⟩ := exists_of_mem_forall₂ each hw
    exact hvw (itemsDistinct_iff.mp hd v hv)
  · intro members same members' each order hd
    have hkeys : Entries.keys same = Entries.keys members :=
      keys_eq_of_forall₂ each fun _ _ hr => hr.1
    have hnodup : (Entries.keys members').Nodup :=
      (order.map Prod.fst).nodup_iff.mp (by rw [← Entries.keys, hkeys]; exact hd.keys_nodup)
    refine ⟨hnodup, membersDistinct_iff.mpr fun entry he => ?_⟩
    obtain ⟨source, hs, -, -, hvalue⟩ := exists_of_mem_forall₂ each (order.mem_iff.mpr he)
    exact hvalue (membersDistinct_iff.mp hd.2 source hs)

theorem Reordered.symm {v w : Json} (h : Reordered v w) : Reordered w v := by
  refine h.induct Reordered.refl ?_ ?_
  · intro items items' each
    exact .array (itemsReordered_iff.mpr (each.flip.imp fun _ _ hr => hr.2))
  · intro members same members' each order
    have hback : List.Forall₂ (fun y x => x.1 = y.1 ∧ Reordered y.2 x.2) same members :=
      each.flip.imp fun _ _ hr => ⟨hr.1.symm, hr.2.2⟩
    obtain ⟨first, hfirst, hperm⟩ := List.perm_comp_forall₂ order.symm hback
    exact .object (membersReordered_iff.mpr hfirst) hperm

/-- Equal up to the order of entries, with no key used twice in any object. -/
structure Alike (v w : Json) : Prop where
  distinct : v.KeysDistinct
  reordered : Reordered v w

namespace Alike

variable {v w : Json} {members members' : Entries Json}

/-- Looking up a key does not depend on the order. -/
theorem get? (h : Alike (.object members) (.object members')) (key : Text) :
    Option.Rel Alike (members.get? key) (members'.get? key) := by
  obtain ⟨hd, hr⟩ := h
  have hd' := hr.keysDistinct hd
  cases hr with
  | @object _ same _ each order =>
    have hrel := membersReordered_iff.mp each
    have hkeys : Entries.keys same = members.keys := keys_eq_of_forall₂ hrel fun _ _ hr => hr.1
    have hsame : Entries.get? key same = members'.get? key :=
      (Entries.perm_iff_get?_eq (hkeys ▸ hd.keys_nodup) hd'.keys_nodup).mp order key
    have hfound := get?_rel_of_forall₂ hrel (fun _ _ hr => hr.1) key
    rw [← hsame]
    generalize Entries.get? key same = found at hfound ⊢
    cases hx : Entries.get? key members with
    | none =>
      rw [hx] at hfound
      cases hfound
      exact .none
    | some v =>
      rw [hx] at hfound
      cases hfound with
      | some hvalue =>
        exact .some ⟨membersDistinct_iff.mp hd.2 _ (Entries.mem_of_get? hx), hvalue.2⟩

theorem symm (h : Alike v w) : Alike w v := ⟨h.reordered.keysDistinct h.distinct, h.reordered.symm⟩

theorem array_iff {items items' : List Json} :
    Alike (.array items) (.array items') ↔ List.Forall₂ Alike items items' := by
  constructor
  · intro h
    obtain ⟨hd, hr⟩ := h
    cases hr with
    | array each =>
      rw [KeysDistinct, itemsDistinct_iff] at hd
      have heach := itemsReordered_iff.mp each
      clear each
      induction heach with
      | nil => exact .nil
      | cons first _ ih =>
        obtain ⟨hfirst, hrest⟩ := List.forall_mem_cons.mp hd
        exact .cons ⟨hfirst, first⟩ (ih hrest)
  · intro h
    refine ⟨itemsDistinct_iff.mpr ?_, .array (itemsReordered_iff.mpr (h.imp fun _ _ h => h.2))⟩
    intro v hv
    obtain ⟨w, -, hw⟩ := exists_of_mem_forall₂ h.flip hv
    exact hw.distinct

/-- Objects are alike if they use the same keys, once each, for values that are alike. -/
theorem object_iff : Alike (.object members) (.object members') ↔
    members.keys.Nodup ∧ members'.keys.Nodup ∧
      ∀ key, Option.Rel Alike (members.get? key) (members'.get? key) := by
  constructor
  · intro h
    exact ⟨h.distinct.keys_nodup, (h.reordered.keysDistinct h.distinct).keys_nodup, h.get?⟩
  · intro h
    obtain ⟨hn, hn', hfound⟩ := h
    have hvalue : ∀ entry ∈ members, Alike entry.2 ((members'.get? entry.1).getD .null) := by
      intro entry he
      have hentry := hfound entry.1
      rw [Entries.get?_of_mem hn he] at hentry
      generalize Entries.get? entry.1 members' = found at hentry ⊢
      cases hentry with
      | some halike => exact halike
    -- the first object with the values of the second
    let same := members.mapValues fun key _ => (members'.get? key).getD .null
    have hsame : Entries.keys same = members.keys := Entries.keys_mapValues _ members
    have horder : same.Perm members' := by
      rw [Entries.perm_iff_get?_eq (hsame ▸ hn) hn']
      intro key
      have hkey := hfound key
      rw [Entries.get?_mapValues]
      generalize Entries.get? key members = first at hkey ⊢
      generalize Entries.get? key members' = second at hkey ⊢
      cases hkey <;> rfl
    have heach : MembersReordered members same := by
      refine membersReordered_iff.mpr (List.forall₂_map_right_iff.mpr (List.forall₂_same.mpr ?_))
      intro entry he
      exact ⟨rfl, (hvalue entry he).reordered⟩
    refine ⟨⟨hn, membersDistinct_iff.mpr ?_⟩, .object heach horder⟩
    intro entry he
    exact (hvalue entry he).distinct

section Edits

variable (h : Alike (.object members) (.object members')) (key : Text)
include h

theorem put (halike : Alike v w) :
    Alike (.object (members.put key v)) (.object (members'.put key w)) := by
  obtain ⟨hn, hn', hfound⟩ := object_iff.mp h
  refine object_iff.mpr ⟨Entries.nodup_keys_put key v hn, Entries.nodup_keys_put key w hn', ?_⟩
  intro asked
  rw [Entries.get?_put, Entries.get?_put]
  split
  · exact .some halike
  · exact hfound asked

theorem without (known : List Text) :
    Alike (.object (members.without known)) (.object (members'.without known)) := by
  obtain ⟨hn, hn', hfound⟩ := object_iff.mp h
  refine object_iff.mpr
    ⟨Entries.nodup_keys_without hn known, Entries.nodup_keys_without hn' known, ?_⟩
  intro asked
  rw [Entries.get?_without, Entries.get?_without]
  split
  · exact .none
  · exact hfound asked

/-- What is said of all values of an object holds of alike values of the other. -/
theorem forall_values {P : Json → Prop} (hP : ∀ v w, Alike v w → P v → P w)
    (hall : ∀ entry ∈ members, P entry.2) : ∀ entry ∈ members', P entry.2 := by
  obtain ⟨-, hn', hfound⟩ := object_iff.mp h
  intro entry he
  have hentry := hfound entry.1
  rw [Entries.get?_of_mem hn' he] at hentry
  cases hv : Entries.get? entry.1 members with
  | none =>
    rw [hv] at hentry
    cases hentry
  | some v =>
    rw [hv] at hentry
    cases hentry with
    | some halike => exact hP v entry.2 halike (hall _ (Entries.mem_of_get? hv))

end Edits

end Alike

/-! ### Sorted keys -/

theorem sortKeysItems_eq_map (items : List Json) : sortKeysItems items = items.map sortKeys := by
  induction items with
  | nil => rfl
  | cons v rest ih => simp [sortKeysItems, ih]

theorem sortKeysMembers_eq_map (members : List (Text × Json)) :
    sortKeysMembers members = members.map fun entry => (entry.1, entry.2.sortKeys) := by
  induction members with
  | nil => rfl
  | cons entry rest ih => simp [sortKeysMembers, ih]

/-- Sorting entries with distinct keys forgets their order. -/
theorem mergeSort_eq_of_perm {xs ys : Entries Json} (hn : xs.keys.Nodup) (h : xs.Perm ys) :
    xs.mergeSort (fun a b => a.1.le b.1) = ys.mergeSort fun a b => a.1.le b.1 := by
  have hx := List.mergeSort_perm xs fun a b => a.1.le b.1
  have hy := List.mergeSort_perm ys fun a b => a.1.le b.1
  have hsorted (zs : Entries Json) :
      (zs.mergeSort fun a b => a.1.le b.1).Pairwise fun a b => a.1.le b.1 := by
    apply List.pairwise_mergeSort
    · intro _ _ _ hab hbc
      exact Text.le_trans hab hbc
    · intro a b
      exact (Bool.or_eq_true _ _).mpr (Text.le_total a.1 b.1)
  refine ((hx.trans h).trans hy.symm).eq_of_pairwise ?_ (hsorted xs) (hsorted ys)
  intro a b ha hb hab hba
  have hax : a ∈ xs := hx.mem_iff.mp ha
  have hbx : b ∈ xs := h.mem_iff.mpr (hy.mem_iff.mp hb)
  exact List.inj_on_of_nodup_map hn hax hbx (Text.le_antisymm hab hba)

/-- With all keys sorted, values that are alike are the same. -/
theorem Reordered.sortKeys_eq {v w : Json} (h : Reordered v w) :
    v.KeysDistinct → v.sortKeys = w.sortKeys := by
  refine h.induct (fun _ _ => rfl) ?_ ?_
  · intro items items' each hd
    have hboth := (List.forall₂_and_left _ _).mpr ⟨itemsDistinct_iff.mp hd, each⟩
    have hitems : items.map sortKeys = items'.map sortKeys := by
      rw [← List.forall₂_eq_eq_eq, List.forall₂_map_left_iff, List.forall₂_map_right_iff]
      exact hboth.imp fun v w hr => hr.2.2 hr.1
    rw [sortKeys, sortKeys, sortKeysItems_eq_map, sortKeysItems_eq_map, hitems]
  · intro members same members' each order hd
    have hboth := (List.forall₂_and_left _ _).mpr ⟨membersDistinct_iff.mp hd.2, each⟩
    have hmembers : sortKeysMembers members = sortKeysMembers same := by
      rw [sortKeysMembers_eq_map, sortKeysMembers_eq_map, ← List.forall₂_eq_eq_eq,
        List.forall₂_map_left_iff, List.forall₂_map_right_iff]
      exact hboth.imp fun x y hr => Prod.ext hr.2.1.symm (hr.2.2.2 hr.1)
    have hkeys : Entries.keys (sortKeysMembers members) = Entries.keys members := by
      simp [sortKeysMembers_eq_map, Entries.keys]
    have hsorted : (sortKeysMembers members).Perm (sortKeysMembers members') := by
      rw [hmembers, sortKeysMembers_eq_map, sortKeysMembers_eq_map]
      exact order.map _
    rw [sortKeys, sortKeys, mergeSort_eq_of_perm (hkeys ▸ hd.keys_nodup) hsorted]

theorem membersReordered_sortKeysMembers {members : List (Text × Json)}
    (h : ∀ entry ∈ members, Reordered entry.2 entry.2.sortKeys) :
    MembersReordered members (sortKeysMembers members) := by
  rw [membersReordered_iff, sortKeysMembers_eq_map]
  exact List.forall₂_map_right_iff.mpr (List.forall₂_same.mpr fun entry he => ⟨rfl, h entry he⟩)

/-- Sorting the keys changes nothing but their order. -/
theorem reordered_sortKeys (v : Json) : Reordered v v.sortKeys := by
  induction throughout_true v with
  | @intro v _ _ ih =>
    cases v with
    | null | bool | int | float | string => exact .refl _
    | array items =>
      rw [sortKeys, sortKeysItems_eq_map]
      refine .array (itemsReordered_iff.mpr ?_)
      exact List.forall₂_map_right_iff.mpr (List.forall₂_same.mpr ih)
    | object members =>
      rw [sortKeys]
      refine .object (membersReordered_sortKeysMembers fun entry he => ?_)
        (List.mergeSort_perm _ _).symm
      exact ih entry.2 (List.mem_map_of_mem he)

/-- Whether it holds of an object does not depend on the order of its keys, nor on its values. -/
structure OfKeys (P : Json → Prop) : Prop where
  array : ∀ items items', P (.array items) → P (.array items')
  object : ∀ members members', (Entries.keys members).Perm (Entries.keys members') →
    P (.object members) → P (.object members')

theorem Throughout.reordered {P : Json → Prop} (hP : OfKeys P) {v w : Json} (hr : Reordered v w) :
    v.Throughout P → w.Throughout P := by
  refine hr.induct (fun _ => id) ?_ ?_
  · intro items items' each h
    refine array_iff.mpr ⟨hP.array _ _ h.here, fun w hw => ?_⟩
    obtain ⟨v, hv, -, hvw⟩ := exists_of_mem_forall₂ each hw
    exact hvw ((array_iff.mp h).2 v hv)
  · intro members same members' each order h
    have hkeys : Entries.keys same = Entries.keys members :=
      keys_eq_of_forall₂ each fun _ _ hr => hr.1
    have hperm : (Entries.keys members).Perm (Entries.keys members') := by
      rw [← hkeys]
      exact order.map Prod.fst
    refine object_iff.mpr ⟨hP.object _ _ hperm h.here, fun entry he => ?_⟩
    obtain ⟨source, hs, -, -, hvalue⟩ := exists_of_mem_forall₂ each (order.mem_iff.mpr he)
    exact hvalue ((object_iff.mp h).2 source hs)

end Json
end EntityTable
