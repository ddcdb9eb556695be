import EntityTable.Proofs.Inheritance.History

/-!
A full armament list spelled out. It holds the own armaments of every template that some path of
turret positions leads to, path after path in lexicographic order, and those found at the end of a
path are marked with its first position.
-/

namespace EntityTable

/-- The paths that start with the turret at position `index`, where `below` are those of a
template. -/
def Turret.paths (below : Text → List (List Nat)) (turret : Turret) (index : Nat) :
    List (List Nat) :=
  match turret.reference with
  | none => []
  | some target => (below target).map (index :: ·)

/-- The paths from a template with these turrets: the empty one, then those of one after another. -/
def Turret.pathsThrough (below : Text → List (List Nat)) (turrets : List Turret) :
    List (List Nat) :=
  [] :: turrets.zipIdx.flatMap fun (turret, i) => turret.paths below i

namespace Table

/-- What a template gets along a path: the own armaments of the template at the end, as they are
if the path is empty and otherwise carried by the first turret of the path. -/
def carried (table : Table) (start : Text) (path : List Nat) : List Armament :=
  match table.follow? start path, path with
  | none, _ => []
  | some last, [] => last.armaments
  | some last, first :: _ => last.armaments.map fun a => { a with turret := some first }

/-- All paths from a template, in lexicographic order. -/
structure Lists (table : Table) (start : Text) (paths : List (List Nat)) : Prop where
  sorted : paths.Pairwise (· < ·)
  mem_iff : ∀ path, path ∈ paths ↔ (table.follow? start path).isSome

variable {table : Table} {visiting : List Text} {key : Text} {armaments : List Armament}

theorem carried_cons {position : Nat} {target : Text} (h : table.named? key position = some target)
    (path : List Nat) :
    table.carried key (position :: path) =
      (table.carried target path).map (·.inherit position) := by
  have hf : table.follow? key (position :: path) = table.follow? target path := by
    simp [follow?, h]
  unfold carried
  rw [hf]
  cases table.follow? target path with
  | none => rfl
  | some last =>
    cases path with
    | nil => rfl
    | cons first path => simp [Armament.inherit]

theorem pairwise_snd_zipIdx (turrets : List Turret) (index : Nat) :
    (turrets.zipIdx index).Pairwise fun x y => x.2 < y.2 := by
  induction turrets generalizing index with
  | nil => simp
  | cons turret turrets ih =>
    rw [List.zipIdx_cons, List.pairwise_cons]
    refine ⟨?_, ih (index + 1)⟩
    intro entry he
    have hle := List.le_snd_of_mem_zipIdx he
    show index < entry.2
    omega

section Turrets

variable {below : Text → List (List Nat)}

theorem mem_turret_paths {turret : Turret} {index : Nat} {path : List Nat} :
    path ∈ turret.paths below index ↔ ∃ target rest, turret.reference = some target ∧
      rest ∈ below target ∧ path = index :: rest := by
  unfold Turret.paths
  cases turret.reference with
  | none => simp
  | some target => simp [eq_comm]

theorem pairwise_turret_paths {turret : Turret} {index : Nat}
    (hb : ∀ target, turret.reference = some target → (below target).Pairwise (· < ·)) :
    (turret.paths below index).Pairwise (· < ·) := by
  unfold Turret.paths
  cases hr : turret.reference with
  | none => exact List.Pairwise.nil
  | some target =>
    rw [List.pairwise_map]
    apply (hb target hr).imp
    intro path path' hlt
    exact List.cons_lt_cons_iff.mpr (.inr ⟨rfl, hlt⟩)

/-- Paths through one turret are in order as those below it are, and paths through different
turrets as the turrets are. -/
theorem pairwise_pathsThrough {turrets : List Turret}
    (hb : ∀ turret ∈ turrets, ∀ target, turret.reference = some target →
      (below target).Pairwise (· < ·)) :
    (Turret.pathsThrough below turrets).Pairwise (· < ·) := by
  rw [Turret.pathsThrough, List.pairwise_cons, List.pairwise_flatMap]
  refine ⟨?_, ?_, ?_⟩
  · intro path hp
    obtain ⟨⟨turret, i⟩, -, hp⟩ := List.mem_flatMap.mp hp
    obtain ⟨target, rest, -, -, rfl⟩ := mem_turret_paths.mp hp
    exact List.nil_lt_cons i rest
  · intro entry he
    obtain ⟨turret, i⟩ := entry
    have hmem : turret ∈ turrets := List.mem_of_getElem? (List.mem_zipIdx_iff_getElem?.mp he)
    exact pairwise_turret_paths (hb turret hmem)
  · apply (pairwise_snd_zipIdx turrets 0).imp
    intro x y hxy path hp path' hp'
    obtain ⟨target, rest, -, -, rfl⟩ := mem_turret_paths.mp hp
    obtain ⟨target', rest', -, -, rfl⟩ := mem_turret_paths.mp hp'
    exact List.cons_lt_cons_iff.mpr (.inl hxy)

theorem cons_mem_pathsThrough {turrets : List Turret} {position : Nat} {rest : List Nat} :
    position :: rest ∈ Turret.pathsThrough below turrets ↔ ∃ turret target,
      turrets[position]? = some turret ∧ turret.reference = some target ∧ rest ∈ below target := by
  simp only [Turret.pathsThrough, List.mem_cons, reduceCtorEq, false_or, List.mem_flatMap]
  constructor
  · intro h
    obtain ⟨⟨turret, i⟩, he, hp⟩ := h
    obtain ⟨target, rest', hr, hrest, heq⟩ := mem_turret_paths.mp hp
    obtain ⟨rfl, rfl⟩ := List.cons.inj heq
    exact ⟨turret, target, List.mem_zipIdx_iff_getElem?.mp he, hr, hrest⟩
  · intro h
    obtain ⟨turret, target, hi, hr, hrest⟩ := h
    exact ⟨(turret, position), List.mem_zipIdx_iff_getElem?.mpr hi,
      mem_turret_paths.mpr ⟨target, rest, hr, hrest, rfl⟩⟩

theorem isSome_follow?_cons {template : Template} (ht : table.get? key = some template)
    {position : Nat} {rest : List Nat} :
    (table.follow? key (position :: rest)).isSome = true ↔ ∃ turret target,
      template.turrets[position]? = some turret ∧ turret.reference = some target ∧
        (table.follow? target rest).isSome = true := by
  rw [follow?, named?_of_get? ht]
  cases hi : template.turrets[position]? with
  | none => simp
  | some turret => cases hr : turret.reference <;> simp [hr]

theorem lists_of_turrets {template : Template} (ht : table.get? key = some template)
    (hb : ∀ turret ∈ template.turrets, ∀ target, turret.reference = some target →
      table.Lists target (below target)) :
    table.Lists key (Turret.pathsThrough below template.turrets) := by
  constructor
  · apply pairwise_pathsThrough
    intro turret hmem target hr
    exact (hb turret hmem target hr).sorted
  · intro path
    cases path with
    | nil => simp [Turret.pathsThrough, follow?, ht]
    | cons position rest =>
      rw [cons_mem_pathsThrough, isSome_follow?_cons ht]
      refine exists_congr fun turret => exists_congr fun target => and_congr_right fun hi =>
        and_congr_right fun hr => ?_
      exact (hb turret (List.mem_of_getElem? hi) target hr).mem_iff rest

end Turrets

/-- By induction along the walk: the paths of a template are the empty one and, turret by turret,
those of the templates named there. -/
theorem collect_eq_paths (h : table.collect visiting key = .ok armaments) :
    ∃ paths, table.Lists key paths ∧ armaments = paths.flatMap (table.carried key) := by
  induction visiting, key using collect.induct table generalizing armaments with
  | case1 visiting key hm => simp [collect_of_mem (by simpa using hm)] at h
  | case2 visiting key hm hn =>
    simp [collect_of_unknown (by simpa using hm) (Entries.get?_eq_none_iff.mp hn)] at h
  | case3 visiting key hm template ht ih =>
    obtain ⟨-, found, inherited, hf, hc, rfl⟩ := collect_eq_ok h
    obtain rfl : found = template := by simpa [ht] using hf.symm
    have hpaths : ∀ target, ∃ paths, ∀ full,
        table.collect (visiting ++ [key]) target = .ok full →
          table.Lists target paths ∧ full = paths.flatMap (table.carried target) := by
      intro target
      cases hv : table.collect (visiting ++ [key]) target with
      | error failure => exact ⟨[], by simp⟩
      | ok full =>
        obtain ⟨paths, hl, he⟩ := ih target hv
        refine ⟨paths, ?_⟩
        intro full' hfull
        obtain rfl := Except.ok.inj hfull
        exact ⟨hl, he⟩
    choose below hbelow using hpaths
    have hvisits := provides_of_collectFrom hc
    refine ⟨Turret.pathsThrough below found.turrets, lists_of_turrets ht ?_, ?_⟩
    · intro turret hmem target hr
      obtain ⟨-, full, hv⟩ := hvisits turret hmem target hr
      exact (hbelow target full hv).1
    · have hown : table.carried key [] = found.armaments := by simp [carried, follow?, ht]
      rw [Turret.pathsThrough, List.flatMap_cons, hown, collectFrom_eq_carries hc,
        List.flatMap_assoc]
      congr 1
      apply List.flatMap_congr
      intro entry he
      obtain ⟨turret, i⟩ := entry
      have hi := List.mem_zipIdx_iff_getElem?.mp he
      have hmem : turret ∈ found.turrets := List.mem_of_getElem? hi
      show turret.carries _ i = (turret.paths below i).flatMap (table.carried key)
      unfold Turret.carries Turret.paths
      cases hr : turret.reference with
      | none => rfl
      | some target =>
        obtain ⟨-, full, hv⟩ := hvisits turret hmem target hr
        have hname : table.named? key i = some target := by
          rw [named?_of_get? ht]
          simp [hi, hr]
        simp only [hv, Except.toOption, Option.getD_some, (hbelow target full hv).2,
          List.map_flatMap, List.flatMap_map, carried_cons hname]

end Table

namespace Resolver

/-- Nothing is lost, doubled or out of order, also where several paths lead to one template. -/
theorem resolve_eq_paths (table : Table) (calls : List Text) (key : Text)
    (armaments : List Armament)
    (h : (((ofTable table).after calls).resolve key).2.outcome = .ok armaments) :
    ∃ paths : List (List Nat), paths.Pairwise (· < ·) ∧
      (∀ path, path ∈ paths ↔ (table.follow? key path).isSome) ∧
      armaments = paths.flatMap (table.carried key) := by
  rw [((ready_ofTable table).after calls).outcome key] at h
  obtain ⟨paths, hl, he⟩ := Table.collect_eq_paths h
  exact ⟨paths, hl.sorted, hl.mem_iff, he⟩

/-- A ship whose gun stands in a turret of its own and twice in its tower. -/
def sharedGun : Table :=
  let gun : Armament := ⟨0, 1, some 7, [("type", .string "shell")]⟩
  let anchor : Armament := ⟨0, 0, none, []⟩
  [("ship", .ofMounts [some "gun", none, some "tower"] [anchor]),
    ("tower", .ofMounts [some "gun", some "gun"] []), ("gun", .ofMounts [] [gun])]

/-- Asked after a refusal and for the tower; every copy carries the first position of its path. -/
theorem resolve_sharedGun :
    (((ofTable sharedGun).after ["ghost", "tower"]).resolve "ship").2.outcome =
        .ok [⟨0, 0, none, []⟩, ⟨0, 1, some 0, [("type", .string "shell")]⟩,
          ⟨0, 1, some 2, [("type", .string "shell")]⟩,
          ⟨0, 1, some 2, [("type", .string "shell")]⟩] ∧
      ∃ paths : List (List Nat), paths.Pairwise (· < ·) ∧
        (∀ path, path ∈ paths ↔ (sharedGun.follow? "ship" path).isSome) ∧
        [⟨0, 0, none, []⟩, ⟨0, 1, some 0, [("type", .string "shell")]⟩,
          ⟨0, 1, some 2, [("type", .string "shell")]⟩,
          ⟨0, 1, some 2, [("type", .string "shell")]⟩] =
            paths.flatMap (sharedGun.carried "ship") := by
  have h : (((ofTable sharedGun).after ["ghost", "tower"]).resolve "ship").2.outcome =
      .ok [⟨0, 0, none, []⟩, ⟨0, 1, some 0, [("type", .string "shell")]⟩,
        ⟨0, 1, some 2, [("type", .string "shell")]⟩,
        ⟨0, 1, some 2, [("type", .string "shell")]⟩] := by with_unfolding_all rfl
  exact ⟨h, resolve_eq_paths sharedGun ["ghost", "tower"] "ship" _ h⟩

end Resolver
end EntityTable
