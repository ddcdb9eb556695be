import EntityTable.Proofs.Artifact.SelfConsistency
import EntityTable.Proofs.Authored.Meaning

/-!
A compilation that succeeds, stage by stage: the table that was read, the templates compiled on
their own, and the artifact with all armaments in place.
-/

namespace EntityTable

/-- An authored table can be compiled, and its templates on their own are `normalized`. -/
structure Stages (members : Entries Json) (normalized : Table) : Prop where
  read : Authored.Table.ofJson (.object members) = .ok (Authored.Table.meaning members)
  compiled : (Authored.Table.meaning members).compileEach.outcome = .ok normalized
  collected : ∀ entry ∈ normalized, ∃ armaments, normalized.collect [] entry.1 = .ok armaments

theorem Table.toJson_attached (table : Table) :
    Table.toJson (table.mapValues fun key template =>
      { template with armaments := table.full key }) = .object table.rendered := by
  simp [Table.toJson, Entries.mapValues, rendered]

/-- All templates get their full lists, once every list can be collected. -/
theorem Table.outcome_attachInherited {table : Table}
    (h : ∀ entry ∈ table, ∃ armaments, table.collect [] entry.1 = .ok armaments) :
    table.attachInherited.outcome = .ok (table.mapValues fun key template =>
      { template with armaments := table.full key }) := by
  rw [attachInherited, Resolver.outcome_attachAll (Resolver.ready_ofTable table)]
  refine mapM_eq_ok_iff.mpr (List.forall₂_map_right_iff.mpr (List.forall₂_same.mpr ?_))
  intro entry he
  obtain ⟨armaments, hc⟩ := h entry he
  rw [attached, hc, ← full_of_collect hc]
  rfl

/-- What compiles goes through the stages, and what does compiles. -/
theorem compile_eq_ok_iff {input output : Json} : (compile input).outcome = .ok output ↔
    ∃ members normalized, input = .object members ∧ Stages members normalized ∧
      output = .object normalized.rendered := by
  constructor
  · intro h
    obtain ⟨members, authored, normalized, rfl, hread, hcompiled, hcollect, rfl⟩ := compile_eq_ok h
    obtain rfl := Authored.Table.eq_meaning hread
    exact ⟨members, normalized, rfl, ⟨hread, hcompiled, hcollect⟩, Table.toJson_attached _⟩
  · intro h
    obtain ⟨members, normalized, rfl, hs, rfl⟩ := h
    rw [outcome_compile, hs.read]
    show (Authored.Table.meaning members).compileEach.outcome >>= _ = _
    rw [hs.compiled, ← Table.toJson_attached]
    show normalized.attachInherited.outcome.map Table.toJson = _
    rw [Table.outcome_attachInherited hs.collected]
    rfl

namespace Stages

variable {members : Entries Json} {normalized : Table}

theorem keys_eq (h : Stages members normalized) : normalized.keys = members.keys :=
  (Authored.Table.normalized_of_compileEach h.read h.compiled).1

theorem exists_source (h : Stages members normalized) {entry : Text × Template}
    (he : entry ∈ normalized) : ∃ source ∈ Authored.Table.meaning members,
      source.1 = entry.1 ∧ (source.2.compile source.1).outcome = .ok entry.2 := by
  obtain ⟨source, hm, hkey, hc⟩ :=
    exists_of_mem_forall₂ (Authored.Table.entries_of_compileEach h.compiled) he
  exact ⟨source, hm, hkey.symm, hc⟩

theorem exists_compiled (h : Stages members normalized) {source : Text × Authored.Template}
    (hm : source ∈ Authored.Table.meaning members) :
    ∃ entry ∈ normalized, entry.1 = source.1 ∧
      (source.2.compile source.1).outcome = .ok entry.2 := by
  obtain ⟨entry, he, hkey, hc⟩ :=
    exists_of_mem_forall₂ (Authored.Table.entries_of_compileEach h.compiled).flip hm
  exact ⟨entry, he, hkey, hc⟩

/-- Each template is compiled from the value under its own key. -/
theorem get? (h : Stages members normalized) (key : Text) :
    Option.Rel (fun v t =>
        ((Authored.Template.meaning (Authored.objectOf v)).compile key).outcome = .ok t)
      (members.get? key) (normalized.get? key) := by
  have hrel := Authored.Table.get?_compileEach h.compiled key
  rw [Authored.Table.meaning, Entries.get?_mapValues] at hrel
  generalize normalized.get? key = t at hrel ⊢
  cases hv : Entries.get? key members with
  | none =>
    rw [hv] at hrel
    cases hrel
    exact .none
  | some v =>
    rw [hv] at hrel
    cases hrel with
    | some hcompiled => exact .some hcompiled

/-- The same value is compiled to the same template, whatever else is in the table. -/
theorem get?_eq {members' : Entries Json} {normalized' : Table} (h : Stages members normalized)
    (h' : Stages members' normalized') {key : Text}
    (hkey : members.get? key = members'.get? key) : normalized.get? key = normalized'.get? key := by
  have hfound := h.get? key
  have hfound' := h'.get? key
  rw [← hkey] at hfound'
  generalize normalized.get? key = t at hfound ⊢
  generalize normalized'.get? key = t' at hfound' ⊢
  cases hv : Entries.get? key members with
  | none =>
    rw [hv] at hfound hfound'
    cases hfound
    cases hfound'
    rfl
  | some v =>
    rw [hv] at hfound hfound'
    cases hfound with
    | some hc =>
      cases hfound' with
      | some hc' => rw [Except.ok.inj (hc.symm.trans hc')]

end Stages
end EntityTable
