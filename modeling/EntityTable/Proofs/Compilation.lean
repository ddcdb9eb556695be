import EntityTable.Compilation
import EntityTable.Proofs.Authored.Reader
import EntityTable.Proofs.Expansion
import EntityTable.Proofs.Inheritance.Attach

/-!
The stages of a compilation that succeeds, and what the templates are like between them: every
mount expanded, none inherited yet, and no interpreted key left among the fields kept aside.
-/

namespace EntityTable

/-- A template that is ready to inherit. -/
structure Template.Normalized (t : Template) : Prop where
  turrets : ∀ turret ∈ t.turrets, turret.extra.Lacks Authored.Turret.knownKeys
  armaments : ∀ armament ∈ t.armaments, armament.extra.Lacks Authored.Armament.knownKeys
  uncarried : ∀ armament ∈ t.armaments, armament.turret = none

namespace Authored

theorem Turret.extra_of_mem_expand {t : Turret} {mounted : EntityTable.Turret}
    (h : mounted ∈ t.expand) : mounted.extra = t.extra := by
  rcases mem_expand_iff.mp h with rfl | ⟨-, rfl⟩ <;> rfl

theorem Armament.extra_of_mem_expand {a : Armament} {mounted : EntityTable.Armament}
    (h : mounted ∈ a.expand) : mounted.extra = a.extra ∧ mounted.turret = none := by
  rcases mem_expand_iff.mp h with rfl | ⟨-, rfl⟩ <;> exact ⟨rfl, rfl⟩

theorem Template.mounts_of_compile {owner : Text} {t : Template} {compiled : EntityTable.Template}
    (h : (t.compile owner).outcome = .ok compiled) :
    compiled.turrets = t.turrets.flatMap Turret.expand ∧
      compiled.armaments = t.armaments.flatMap Armament.expand := by
  simp only [compile, Logged.outcome_bind] at h
  obtain ⟨range, -, h⟩ := bind_eq_ok_iff.mp h
  obtain ⟨damage, -, h⟩ := bind_eq_ok_iff.mp h
  obtain rfl := Except.ok.inj h
  exact ⟨rfl, rfl⟩

theorem Template.normalized_of_compile {reader owner : Text} {members : Members} {t : Template}
    {compiled : EntityTable.Template} (hread : ofMembers reader members = .ok t)
    (h : (t.compile owner).outcome = .ok compiled) : compiled.Normalized := by
  obtain ⟨hturrets, harmaments⟩ := mounts_of_ofMembers hread
  obtain ⟨hct, hca⟩ := mounts_of_compile h
  have hown : ∀ armament ∈ compiled.armaments,
      armament.extra.Lacks Armament.knownKeys ∧ armament.turret = none := by
    intro armament hm
    rw [hca] at hm
    obtain ⟨authored, ha, hmounted⟩ := List.mem_flatMap.mp hm
    obtain ⟨hextra, hnone⟩ := Armament.extra_of_mem_expand hmounted
    obtain ⟨index, object, ho⟩ := exists_object_of_mounts harmaments ha
    rw [hextra, Armament.extra_of_ofMembers ho]
    exact ⟨Entries.lacks_without _ _, hnone⟩
  refine ⟨?_, fun armament hm => (hown armament hm).1, fun armament hm => (hown armament hm).2⟩
  intro turret hm
  rw [hct] at hm
  obtain ⟨authored, ht, hmounted⟩ := List.mem_flatMap.mp hm
  obtain ⟨index, object, ho⟩ := exists_object_of_mounts hturrets ht
  rw [Turret.extra_of_mem_expand hmounted, Turret.extra_of_ofMembers ho]
  exact Entries.lacks_without _ _

theorem Table.entries_of_compileEach {authored : Table} {normalized : EntityTable.Table}
    (h : authored.compileEach.outcome = .ok normalized) :
    List.Forall₂ (fun source entry => entry.1 = source.1 ∧
      (source.2.compile source.1).outcome = .ok entry.2) authored normalized := by
  rw [compileEach, Logged.outcome_mapM] at h
  apply (mapM_eq_ok_iff.mp h).imp
  intro source entry hf
  simp only [Logged.outcome_bind] at hf
  obtain ⟨_, -, hf⟩ := bind_eq_ok_iff.mp hf
  obtain ⟨t, ht, hf⟩ := bind_eq_ok_iff.mp hf
  obtain rfl := Except.ok.inj hf
  exact ⟨rfl, ht⟩

theorem Table.get?_compileEach {authored : Table} {normalized : EntityTable.Table}
    (h : authored.compileEach.outcome = .ok normalized) (key : Text) :
    Option.Rel (fun source t => (source.compile key).outcome = .ok t) (authored.get? key)
      (normalized.get? key) := by
  have hrel := get?_rel_of_forall₂ (entries_of_compileEach h) (fun _ _ hr => hr.1) key
  generalize Entries.get? key authored = source at hrel ⊢
  generalize Entries.get? key normalized = t at hrel ⊢
  cases hrel with
  | none => exact .none
  | some hr => exact .some hr.2

theorem Table.normalized_of_compileEach {members : Members} {authored : Table}
    {normalized : EntityTable.Table} (hread : Table.ofJson (.object members) = .ok authored)
    (h : authored.compileEach.outcome = .ok normalized) :
    normalized.keys = members.keys ∧
      ∀ key template, (key, template) ∈ normalized → template.Normalized := by
  have hmembers := entries_of_ofJson hread
  have hentries := entries_of_compileEach h
  constructor
  · have hkeys := keys_eq_of_forall₂ hmembers fun _ _ hr => hr.1
    exact (keys_eq_of_forall₂ hentries fun _ _ hr => hr.1).trans hkeys
  · intro key template hm
    obtain ⟨source, hs, -, hcompiled⟩ := exists_of_mem_forall₂ hentries hm
    obtain ⟨member, -, -, hjson⟩ := exists_of_mem_forall₂ hmembers hs
    obtain ⟨object, -, ho⟩ := Template.exists_members_of_ofJson hjson
    exact Template.normalized_of_compile ho hcompiled

end Authored

/-- The phases of a compilation. -/
theorem outcome_compile (input : Json) :
    (compile input).outcome = Authored.Table.ofJson input >>= fun authored =>
      authored.compileEach.outcome >>= fun normalized =>
        normalized.attachInherited.outcome.map Table.toJson := by
  simp only [compile, Authored.Table.compile, Logged.outcome_bind]
  show Authored.Table.ofJson input >>= _ = _
  congr 1
  funext authored
  cases authored.compileEach.outcome with
  | error failure => rfl
  | ok normalized => cases normalized.attachInherited.outcome <;> simp <;> rfl

theorem outcome_compile_of_ofJson {input : Json} {authored : Authored.Table} {normalized : Table}
    (hread : Authored.Table.ofJson input = .ok authored)
    (hc : authored.compileEach.outcome = .ok normalized) :
    (compile input).outcome = (normalized.mapM normalized.attached).map Table.toJson := by
  rw [outcome_compile, hread, ← Resolver.outcome_attachAll (Resolver.ready_ofTable normalized)]
  show authored.compileEach.outcome >>= _ = _
  rw [hc]
  rfl

/-- The stages of a compilation that succeeds. -/
theorem compile_eq_ok {input output : Json} (h : (compile input).outcome = .ok output) :
    ∃ members authored normalized, input = .object members ∧
      Authored.Table.ofJson (.object members) = .ok authored ∧
      authored.compileEach.outcome = .ok normalized ∧
      (∀ entry ∈ normalized, ∃ armaments, normalized.collect [] entry.1 = .ok armaments) ∧
      output = Table.toJson (normalized.mapValues fun key template =>
        { template with armaments := normalized.full key }) := by
  simp only [compile, Authored.Table.compile, Logged.outcome_bind] at h
  obtain ⟨authored, hread, h⟩ := bind_eq_ok_iff.mp h
  obtain ⟨resolved, hresolved, h⟩ := bind_eq_ok_iff.mp h
  obtain ⟨normalized, hnormalized, hresolved⟩ := bind_eq_ok_iff.mp hresolved
  obtain ⟨attached, hattached, hresolved⟩ := bind_eq_ok_iff.mp hresolved
  obtain ⟨_, -, hresolved⟩ := bind_eq_ok_iff.mp hresolved
  have hsame : attached = resolved := Except.ok.inj hresolved
  have houtput : resolved.toJson = output := Except.ok.inj h
  obtain ⟨hall, heq⟩ := Resolver.attachAll_eq_ok (Resolver.ready_ofTable normalized) hattached
  obtain ⟨members, rfl⟩ := Authored.Table.exists_members_of_ofJson hread
  refine ⟨members, authored, normalized, rfl, hread, hnormalized, hall, ?_⟩
  rw [← houtput, ← hsame, heq]

end EntityTable
