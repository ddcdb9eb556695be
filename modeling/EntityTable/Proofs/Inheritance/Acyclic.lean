import EntityTable.Proofs.Inheritance.Collect

/-!
What a successful walk says about the references behind it. None leads back, all of them lead to
templates of the table, and each of these gives the same list by whatever way it is reached.
-/

namespace EntityTable.Table

open Relation (ReflTransGen TransGen)

variable {table : Table} {visiting : List Text} {key target reached : Text}
  {armaments : List Armament}

theorem collect_eq_ok (h : table.collect visiting key = .ok armaments) :
    key ∉ visiting ∧ ∃ template inherited, table.get? key = some template ∧
      collectFrom (table.collect (visiting ++ [key])) table key 0 template.turrets =
        .ok inherited ∧ armaments = template.armaments ++ inherited := by
  by_cases hm : key ∈ visiting
  · simp [collect_of_mem hm] at h
  by_cases hk : key ∈ table.keys
  · obtain ⟨template, ht⟩ := Entries.exists_get?_of_mem_keys hk
    rw [collect_of_get? hm ht] at h
    obtain ⟨inherited, hc, rfl⟩ := map_eq_ok_iff.mp h
    exact ⟨hm, template, inherited, ht, hc, rfl⟩
  · simp [collect_of_unknown hm hk] at h

theorem collect_target (h : table.collect visiting key = .ok armaments)
    (hr : table.References key target) :
    target ∈ table.keys ∧ ∃ found, table.collect (visiting ++ [key]) target = .ok found := by
  obtain ⟨-, template, inherited, ht, hc, -⟩ := collect_eq_ok h
  obtain ⟨turret, hmem, hname⟩ := (references_iff_of_get? ht).mp hr
  exact provides_of_collectFrom hc turret hmem target hname

/-- A walk that succeeds never comes back to the way it was reached by. -/
theorem not_mem_visiting_of_reached (h : table.collect visiting key = .ok armaments)
    (hr : ReflTransGen table.References key reached) : reached ∉ visiting := by
  induction hr using ReflTransGen.head_induction_on generalizing visiting armaments with
  | refl => exact (collect_eq_ok h).1
  | head hstep _ ih =>
    obtain ⟨-, found, hf⟩ := collect_target h hstep
    have hn := ih hf
    simp only [List.mem_append, not_or] at hn
    exact hn.1

theorem not_cyclic_of_collect (h : table.collect visiting key = .ok armaments) :
    ¬TransGen table.References key key := by
  intro hc
  obtain ⟨next, hstep, hback⟩ := TransGen.head'_iff.mp hc
  obtain ⟨-, found, hf⟩ := collect_target h hstep
  exact not_mem_visiting_of_reached hf hback (by simp)

/-- The way to a template matters only if the template leads back onto it. -/
theorem collect_of_disjoint {visiting' : List Text}
    (h : table.collect visiting key = .ok armaments)
    (hd : ∀ reached, ReflTransGen table.References key reached → reached ∉ visiting') :
    table.collect visiting' key = .ok armaments := by
  induction visiting, key using collect.induct table generalizing visiting' armaments with
  | case1 visiting key hm => simp [collect_of_mem (by simpa using hm)] at h
  | case2 visiting key hm hn =>
    simp [collect_of_unknown (by simpa using hm) (Entries.get?_eq_none_iff.mp hn)] at h
  | case3 visiting key hm template ht ih =>
    obtain ⟨-, found, inherited, hf, hc, rfl⟩ := collect_eq_ok h
    obtain rfl : found = template := by simpa [ht] using hf.symm
    rw [collect_of_get? (hd key .refl) ht]
    have same : collectFrom (table.collect (visiting' ++ [key])) table key 0 found.turrets =
        .ok inherited := by
      apply collectFrom_congr hc
      intro turret hmem target hname carried hv
      have hstep := (references_iff_of_get? ht).mpr ⟨turret, hmem, hname⟩
      apply ih target hv
      intro reached hr
      -- a successful walk behind `key` does not come back to it
      have hkey : reached ≠ key := by
        intro heq
        subst heq
        exact not_mem_visiting_of_reached hv hr (by simp)
      simpa [hkey] using hd reached (.head hstep hr)
    simp [same, Except.map]

theorem collect_nil (h : table.collect visiting key = .ok armaments) :
    table.collect [] key = .ok armaments :=
  collect_of_disjoint h fun _ _ => List.not_mem_nil

/-- A template that can be collected gives the same list wherever a walk comes across it. -/
theorem collect_of_on_the_way (h : table.collect [] key = .ok armaments)
    (hw : ∀ passed ∈ visiting, TransGen table.References passed key) :
    table.collect visiting key = .ok armaments := by
  apply collect_of_disjoint h
  intro reached hr hm
  exact not_cyclic_of_collect h (TransGen.trans_right hr (hw reached hm))

theorem collect_reached (h : table.collect visiting key = .ok armaments)
    (hr : ReflTransGen table.References key reached) :
    ∃ found, table.collect [] reached = .ok found := by
  induction hr using ReflTransGen.head_induction_on generalizing visiting armaments with
  | refl => exact ⟨armaments, collect_nil h⟩
  | head hstep _ ih =>
    obtain ⟨-, found, hf⟩ := collect_target h hstep
    exact ih hf

end EntityTable.Table
