import EntityTable.Proofs.Inheritance.Attach

/-!
Two tables with the same references, and own armaments that are related entry by entry, have full
armament lists that are related in the same way.
-/

namespace EntityTable

open Relation (ReflTransGen)

/-- Templates that name the same templates and list armaments that are related. -/
structure Template.Related (R : Armament → Armament → Prop) (t t' : Template) : Prop where
  references : t.turrets.map (·.reference) = t'.turrets.map (·.reference)
  armaments : List.Forall₂ R t.armaments t'.armaments

namespace Table

variable {R : Armament → Armament → Prop} {table table' : Table}

theorem collectFrom_related (hinherit : ∀ a b i, R a b → R (a.inherit i) (b.inherit i))
    {visit visit' : Text → Except Failure (List Armament)} {owner : Text} {index : Nat}
    {turrets turrets' : List Turret} {carried : List Armament}
    (href : turrets.map (·.reference) = turrets'.map (·.reference))
    (hvisit : ∀ turret ∈ turrets, ∀ target, turret.reference = some target → target ∈ table.keys →
      ∀ armaments, visit target = .ok armaments → target ∈ table'.keys ∧
        ∃ armaments', visit' target = .ok armaments' ∧ List.Forall₂ R armaments armaments')
    (h : collectFrom visit table owner index turrets = .ok carried) :
    ∃ carried', collectFrom visit' table' owner index turrets' = .ok carried' ∧
      List.Forall₂ R carried carried' := by
  induction turrets generalizing turrets' index carried with
  | nil =>
    obtain rfl : turrets' = [] := by simpa using href.symm
    obtain rfl : [] = carried := Except.ok.inj h
    exact ⟨[], rfl, .nil⟩
  | cons turret turrets ih =>
    cases turrets' with
    | nil => simp at href
    | cons turret' turrets' =>
      obtain ⟨hfirst, hrest⟩ := List.cons.inj href
      replace hfirst : turret.reference = turret'.reference := hfirst
      have hlater := fun t (ht : t ∈ turrets) => hvisit t (List.mem_cons_of_mem _ ht)
      rcases collectFrom_cons_eq_ok_iff.mp h with
        ⟨hr, hmore⟩ | ⟨target, armaments, more, hr, hknown, hv, hmore, rfl⟩
      · obtain ⟨carried', hcarried', hrelated⟩ := ih hrest hlater hmore
        rw [hfirst] at hr
        exact ⟨carried', collectFrom_cons_eq_ok_iff.mpr (.inl ⟨hr, hcarried'⟩), hrelated⟩
      · obtain ⟨hknown', armaments', hv', harm⟩ := hvisit turret (List.mem_cons_self ..) target hr
          hknown armaments hv
        obtain ⟨more', hmore', hrelated⟩ := ih hrest hlater hmore
        rw [hfirst] at hr
        refine ⟨_, collectFrom_cons_eq_ok_iff.mpr (.inr ⟨target, armaments', more', hr, hknown',
          hv', hmore', rfl⟩), List.rel_append ?_ hrelated⟩
        rw [List.forall₂_map_left_iff, List.forall₂_map_right_iff]
        exact harm.imp fun a b => hinherit a b index

/-- Only the templates that the walk comes by need to be related. -/
theorem collect_related (hinherit : ∀ a b i, R a b → R (a.inherit i) (b.inherit i))
    {visiting : List Text} {key : Text} {armaments : List Armament}
    (hsame : ∀ reached, ReflTransGen table.References key reached →
      Option.Rel (Template.Related R) (table.get? reached) (table'.get? reached))
    (h : table.collect visiting key = .ok armaments) :
    ∃ armaments', table'.collect visiting key = .ok armaments' ∧
      List.Forall₂ R armaments armaments' := by
  induction visiting, key using collect.induct table generalizing armaments with
  | case1 visiting key hm => simp [collect_of_mem (by simpa using hm)] at h
  | case2 visiting key hm hn =>
    simp [collect_of_unknown (by simpa using hm) (Entries.get?_eq_none_iff.mp hn)] at h
  | case3 visiting key hm template ht ih =>
    obtain ⟨hfresh, found, inherited, hf, hc, rfl⟩ := collect_eq_ok h
    obtain rfl : found = template := by simpa [ht] using hf.symm
    have hhere := hsame key .refl
    rw [ht] at hhere
    obtain ⟨template', ht', hrelated⟩ : ∃ template', table'.get? key = some template' ∧
        Template.Related R found template' := by
      generalize table'.get? key = there at hhere
      cases hhere with
      | some hrelated => exact ⟨_, rfl, hrelated⟩
    rw [collect_of_get? hfresh ht']
    have hvisit : ∀ turret ∈ found.turrets, ∀ target, turret.reference = some target →
        target ∈ table.keys → ∀ carried, table.collect (visiting ++ [key]) target = .ok carried →
          target ∈ table'.keys ∧ ∃ carried',
            table'.collect (visiting ++ [key]) target = .ok carried' ∧
              List.Forall₂ R carried carried' := by
      intro turret hmem target hr hknown carried hv
      have hstep := (references_iff_of_get? ht).mpr ⟨turret, hmem, hr⟩
      refine ⟨?_, ih target (fun reached hreach => hsame reached (.head hstep hreach)) hv⟩
      have hthere := hsame target (.single hstep)
      obtain ⟨behind, hb⟩ := Entries.exists_get?_of_mem_keys hknown
      rw [hb] at hthere
      cases hb' : table'.get? target with
      | none => rw [hb'] at hthere; cases hthere
      | some behind' => exact Entries.mem_keys_of_get? hb'
    obtain ⟨inherited', hc', hinherited⟩ :=
      collectFrom_related hinherit hrelated.references hvisit hc
    exact ⟨_, by rw [hc']; rfl, List.rel_append hrelated.armaments hinherited⟩

/-- Full lists across two tables that are related throughout. -/
theorem full_related (hinherit : ∀ a b i, R a b → R (a.inherit i) (b.inherit i))
    (hsame : ∀ key, Option.Rel (Template.Related R) (table.get? key) (table'.get? key))
    {key : Text} {armaments : List Armament} (h : table.collect [] key = .ok armaments) :
    List.Forall₂ R (table.full key) (table'.full key) := by
  obtain ⟨armaments', h', hrelated⟩ := collect_related hinherit (fun reached _ => hsame reached) h
  rw [full_of_collect h, full_of_collect h']
  exact hrelated

end Table
end EntityTable
