import EntityTable.Authored.Reader
import EntityTable.Proofs.Entries
import EntityTable.Proofs.Outcome

/-!
What has been read from an authored table that is accepted. Keys stay in their order, and whatever
is kept aside in a record is free of the keys that have a meaning there.
-/

namespace EntityTable.Authored

theorem Turret.extra_of_ofMembers {owner : Text} {index : Nat} {members : Members} {t : Turret}
    (h : Turret.ofMembers owner index members = .ok t) : t.extra = members.without knownKeys := by
  obtain ⟨angle, -, h⟩ := bind_eq_ok_iff.mp h
  obtain ⟨side, -, h⟩ := bind_eq_ok_iff.mp h
  obtain ⟨symmetrical, -, h⟩ := bind_eq_ok_iff.mp h
  obtain ⟨reference, -, h⟩ := bind_eq_ok_iff.mp h
  exact (Except.ok.inj h) ▸ rfl

theorem Armament.extra_of_ofMembers {owner : Text} {index : Nat} {members : Members}
    {a : Armament} (h : Armament.ofMembers owner index members = .ok a) :
    a.extra = members.without knownKeys := by
  obtain ⟨_, -, h⟩ := bind_eq_ok_iff.mp h
  obtain ⟨angle, -, h⟩ := bind_eq_ok_iff.mp h
  obtain ⟨side, -, h⟩ := bind_eq_ok_iff.mp h
  obtain ⟨symmetrical, -, h⟩ := bind_eq_ok_iff.mp h
  exact (Except.ok.inj h) ▸ rfl

theorem exists_object_of_mounts {α : Type} {owner : Text} {members : Members} {list : MountList}
    {ofMembers : Text → Nat → Members → Except Failure α} {mounted : List α}
    (h : mounts owner members list ofMembers = .ok mounted) {mount : α} (hm : mount ∈ mounted) :
    ∃ index object, ofMembers owner index object = .ok mount := by
  obtain ⟨objects, -, h⟩ := bind_eq_ok_iff.mp h
  obtain ⟨⟨object, index⟩, -, ho⟩ := exists_of_mem_forall₂ (mapM_eq_ok_iff.mp h) hm
  exact ⟨index, object, ho⟩

theorem Template.mounts_of_ofMembers {owner : Text} {members : Members} {t : Template}
    (h : Template.ofMembers owner members = .ok t) :
    mounts owner members .turrets Turret.ofMembers = .ok t.turrets ∧
      mounts owner members .armaments Armament.ofMembers = .ok t.armaments := by
  obtain ⟨kind, -, h⟩ := bind_eq_ok_iff.mp h
  obtain ⟨subtype, -, h⟩ := bind_eq_ok_iff.mp h
  obtain ⟨length, -, h⟩ := bind_eq_ok_iff.mp h
  obtain ⟨range, -, h⟩ := bind_eq_ok_iff.mp h
  obtain ⟨damage, -, h⟩ := bind_eq_ok_iff.mp h
  obtain ⟨turrets, ht, h⟩ := bind_eq_ok_iff.mp h
  obtain ⟨armaments, ha, h⟩ := bind_eq_ok_iff.mp h
  obtain ⟨sensors, -, h⟩ := bind_eq_ok_iff.mp h
  exact (Except.ok.inj h) ▸ ⟨ht, ha⟩

theorem Template.exists_members_of_ofJson {owner : Text} {v : Json} {t : Template}
    (h : ofJson owner v = .ok t) :
    ∃ members, v = .object members ∧ ofMembers owner members = .ok t := by
  cases v with
  | object members => exact ⟨members, rfl, h⟩
  | _ => simp [ofJson] at h

theorem Table.entries_of_ofJson {members : Members} {table : Table}
    (h : Table.ofJson (.object members) = .ok table) :
    List.Forall₂ (fun member entry => entry.1 = member.1 ∧
      Template.ofJson member.1 member.2 = .ok entry.2) members table := by
  apply (mapM_eq_ok_iff.mp h).imp
  intro member entry hf
  obtain ⟨t, ht, hf⟩ := bind_eq_ok_iff.mp hf
  obtain rfl := Except.ok.inj hf
  exact ⟨rfl, ht⟩

theorem Table.exists_members_of_ofJson {v : Json} {table : Table} (h : Table.ofJson v = .ok table) :
    ∃ members, v = .object members := by
  cases v with
  | object members => exact ⟨members, rfl⟩
  | _ => simp [ofJson] at h

end EntityTable.Authored
