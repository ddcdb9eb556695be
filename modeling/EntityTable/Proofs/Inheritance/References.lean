import EntityTable.Proofs.Entries
import EntityTable.Template
import Mathlib.Data.List.Chain
import Mathlib.Logic.Relation

/-!
The references of a table as a graph: which template a turret names, and the walks along them by
turret position.
-/

namespace EntityTable

/-- A template of mounts only, its turrets given by what they name. -/
def Template.ofMounts (references : List (Option Text)) (armaments : List Armament) : Template :=
  ⟨none, none, none, none, none, references.map (⟨0, 0, ·, []⟩), armaments, [], []⟩

namespace Table

open Relation (ReflTransGen TransGen)

/-- The key that the turret at a position of a template names. -/
def named? (table : Table) (key : Text) (position : Nat) : Option Text := do
  let template ← table.get? key
  let turret ← template.turrets[position]?
  turret.reference

/-- The template has a turret that names the target, whether or not the table holds it. -/
def References (table : Table) (key target : Text) : Prop :=
  ∃ position, table.named? key position = some target

/-- The keys that a walk passes, its start and its end included; there is none if a position is
not that of a naming turret. -/
def stops? (table : Table) : Text → List Nat → Option (List Text)
  | key, [] => some [key]
  | key, position :: positions => do
    let target ← table.named? key position
    let stops ← table.stops? target positions
    return key :: stops

/-- The template at the end of a walk, where every key on it is in the table. -/
def follow? (table : Table) : Text → List Nat → Option Template
  | key, [] => table.get? key
  | key, position :: positions => do
    let target ← table.named? key position
    table.follow? target positions

theorem named?_of_get? {table : Table} {key : Text} {template : Template}
    (h : table.get? key = some template) (position : Nat) :
    table.named? key position = template.turrets[position]?.bind Turret.reference := by
  simp [named?, h]

theorem named?_eq_some_iff {table : Table} {key target : Text} {position : Nat} :
    table.named? key position = some target ↔ ∃ template turret, table.get? key = some template ∧
      template.turrets[position]? = some turret ∧ turret.reference = some target := by
  simp [named?, Option.bind_eq_some_iff]

/-- Only templates of the table have turrets. -/
theorem mem_keys_of_references {table : Table} {key target : Text}
    (h : table.References key target) : key ∈ table.keys := by
  obtain ⟨position, hp⟩ := h
  obtain ⟨template, -, ht, -⟩ := named?_eq_some_iff.mp hp
  exact Entries.mem_keys_of_get? ht

theorem references_iff_of_get? {table : Table} {key target : Text} {template : Template}
    (h : table.get? key = some template) :
    table.References key target ↔ ∃ turret ∈ template.turrets, turret.reference = some target := by
  simp only [References, named?_of_get? h, Option.bind_eq_some_iff]
  constructor
  · intro h
    obtain ⟨position, turret, ht, hr⟩ := h
    exact ⟨turret, List.mem_of_getElem? ht, hr⟩
  · intro h
    obtain ⟨turret, ht, hr⟩ := h
    obtain ⟨position, hp⟩ := List.mem_iff_getElem?.mp ht
    exact ⟨position, turret, hp, hr⟩

theorem stops?_cons_eq_some_iff {table : Table} {key : Text} {position : Nat}
    {positions : List Nat} {stops : List Text} :
    table.stops? key (position :: positions) = some stops ↔ ∃ target rest,
      table.named? key position = some target ∧ table.stops? target positions = some rest ∧
        key :: rest = stops := by
  simp [stops?, Option.bind_eq_some_iff]

theorem stops?_head {table : Table} {key : Text} {positions : List Nat} {stops : List Text}
    (h : table.stops? key positions = some stops) : stops.head? = some key := by
  cases positions with
  | nil => simp only [stops?, Option.some.injEq] at h; simp [← h]
  | cons position positions =>
    obtain ⟨target, rest, -, -, rfl⟩ := stops?_cons_eq_some_iff.mp h
    rfl

theorem stops?_nil_eq_concat_iff {table : Table} {key target : Text} {passed : List Text} :
    table.stops? key [] = some (passed ++ [target]) ↔ passed = [] ∧ target = key := by
  simp [stops?, List.singleton_eq_append_iff]

theorem stops?_cons_eq_concat_iff {table : Table} {key target : Text} {position : Nat}
    {positions : List Nat} {passed : List Text} :
    table.stops? key (position :: positions) = some (passed ++ [target]) ↔ ∃ next front,
      table.named? key position = some next ∧
        table.stops? next positions = some (front ++ [target]) ∧ passed = key :: front := by
  rw [stops?_cons_eq_some_iff]
  constructor
  · intro h
    obtain ⟨next, stops, hname, hstops, heq⟩ := h
    cases passed with
    | nil =>
      obtain ⟨-, rfl⟩ := List.cons.inj heq
      simpa using stops?_head hstops
    | cons first front =>
      obtain ⟨rfl, rfl⟩ := List.cons.inj heq
      exact ⟨next, front, hname, hstops, rfl⟩
  · intro h
    obtain ⟨next, front, hname, hstops, rfl⟩ := h
    exact ⟨next, front ++ [target], hname, hstops, rfl⟩

/-- A key that the table does not hold has no turrets, so a walk from it is over. -/
theorem stops?_of_absent {table : Table} {key target : Text} {positions : List Nat}
    {passed : List Text} (hk : key ∉ table.keys)
    (h : table.stops? key positions = some (passed ++ [target])) :
    positions = [] ∧ passed = [] ∧ target = key := by
  cases positions with
  | nil => exact ⟨rfl, stops?_nil_eq_concat_iff.mp h⟩
  | cons position positions =>
    obtain ⟨next, front, hname, -, -⟩ := stops?_cons_eq_concat_iff.mp h
    exact absurd (mem_keys_of_references ⟨position, hname⟩) hk

theorem stops?_isChain {table : Table} {key : Text} {positions : List Nat} {stops : List Text}
    (h : table.stops? key positions = some stops) : stops.IsChain table.References := by
  induction positions generalizing key stops with
  | nil =>
    simp only [stops?, Option.some.injEq] at h
    simp [← h]
  | cons position positions ih =>
    obtain ⟨target, rest, hn, hs, rfl⟩ := stops?_cons_eq_some_iff.mp h
    refine List.isChain_cons.mpr ⟨?_, ih hs⟩
    intro next hnext
    rw [stops?_head hs] at hnext
    obtain rfl := Option.some.inj hnext
    exact ⟨position, hn⟩

theorem reaches_of_stops? {table : Table} {key reached : Text} {positions : List Nat}
    {front back : List Text}
    (h : table.stops? key positions = some (front ++ reached :: back)) :
    ReflTransGen table.References key reached := by
  induction positions generalizing key front with
  | nil =>
    obtain ⟨-, rfl, -⟩ : front = [] ∧ key = reached ∧ back = [] := by
      cases front <;> simp_all [stops?]
    exact .refl
  | cons position positions ih =>
    obtain ⟨target, rest, hn, hs, heq⟩ := stops?_cons_eq_some_iff.mp h
    cases front with
    | nil =>
      obtain ⟨rfl, -⟩ := List.cons.inj heq
      exact .refl
    | cons first front =>
      obtain ⟨-, rfl⟩ := List.cons.inj heq
      exact .head ⟨position, hn⟩ (ih hs)

theorem transGen_of_isChain {table : Table} {key target : Text} {between : List Text}
    (h : (key :: between ++ [target]).IsChain table.References) :
    TransGen table.References key target := by
  induction between generalizing key with
  | nil => exact .single (List.isChain_cons_cons.mp h).1
  | cons next between ih =>
    obtain ⟨hstep, hrest⟩ := List.isChain_cons_cons.mp h
    exact .head hstep (ih hrest)

/-- Whatever is left again on a chain of references is in the table. -/
theorem mem_keys_of_isChain {table : Table} {passed : List Text} {target key : Text}
    (h : (passed ++ [target]).IsChain table.References) (hk : key ∈ passed) :
    key ∈ table.keys := by
  obtain ⟨front, between, rfl⟩ := List.append_of_mem hk
  have hrest : (key :: between ++ [target]).IsChain table.References :=
    h.suffix ⟨front, by simp⟩
  obtain ⟨next, hstep, -⟩ := TransGen.head'_iff.mp (transGen_of_isChain hrest)
  exact mem_keys_of_references hstep

end Table
end EntityTable
