import EntityTable.Proofs.Authored.Reader

/-!
What reading grants about the records it gives: their numbers are finite, and the fields kept aside
use no interpreted key.
-/

namespace EntityTable

theorem Binary64.isFinite_of_ofInt? {i : Int} {x : Binary64} (h : ofInt? i = some x) :
    x.isFinite = true := by
  rw [ofInt?] at h
  generalize ofInt i = y at h
  split at h
  · next hy =>
    obtain rfl : y = x := Option.some.inj h
    exact hy
  · cases h

namespace Authored

structure Turret.Sound (t : Turret) : Prop where
  angle : t.angle.isFinite = true
  side : t.side.isFinite = true
  extra : t.extra.Lacks knownKeys

structure Armament.Sound (a : Armament) : Prop where
  angle : a.angle.isFinite = true
  side : a.side.isFinite = true
  extra : a.extra.Lacks knownKeys

structure Sensor.Sound (s : Sensor) : Prop where
  range : ∀ x ∈ s.range, x.isFinite = true
  extra : s.extra.Lacks knownKeys

instance (t : Turret) : Decidable t.Sound :=
  decidable_of_iff (t.angle.isFinite = true ∧ t.side.isFinite = true ∧
      t.extra.Lacks Turret.knownKeys)
    ⟨fun ⟨angle, side, extra⟩ => ⟨angle, side, extra⟩, fun h => ⟨h.angle, h.side, h.extra⟩⟩

instance (a : Armament) : Decidable a.Sound :=
  decidable_of_iff (a.angle.isFinite = true ∧ a.side.isFinite = true ∧
      a.extra.Lacks Armament.knownKeys)
    ⟨fun ⟨angle, side, extra⟩ => ⟨angle, side, extra⟩, fun h => ⟨h.angle, h.side, h.extra⟩⟩

instance (s : Sensor) : Decidable s.Sound :=
  decidable_of_iff ((∀ x ∈ s.range, x.isFinite = true) ∧ s.extra.Lacks Sensor.knownKeys)
    ⟨fun ⟨range, extra⟩ => ⟨range, extra⟩, fun h => ⟨h.range, h.extra⟩⟩

structure Template.Sound (t : Template) : Prop where
  length : ∀ x ∈ t.length, x.isFinite = true
  range : ∀ x ∈ t.range, x.isFinite = true
  damage : ∀ x ∈ t.damage, x.isFinite = true
  turrets : ∀ turret ∈ t.turrets, turret.Sound
  armaments : ∀ armament ∈ t.armaments, armament.Sound
  sensors : ∀ sensor ∈ t.sensors, sensor.Sound
  extra : t.extra.Lacks knownKeys

instance (t : Template) : Decidable t.Sound :=
  decidable_of_iff (((∀ x ∈ t.length, x.isFinite = true) ∧ (∀ x ∈ t.range, x.isFinite = true) ∧
      ∀ x ∈ t.damage, x.isFinite = true) ∧ (∀ turret ∈ t.turrets, turret.Sound) ∧
      (∀ armament ∈ t.armaments, armament.Sound) ∧ (∀ sensor ∈ t.sensors, sensor.Sound) ∧
      t.extra.Lacks Template.knownKeys)
    ⟨fun ⟨⟨length, range, damage⟩, turrets, armaments, sensors, extra⟩ =>
        ⟨length, range, damage, turrets, armaments, sensors, extra⟩,
      fun h => ⟨⟨h.length, h.range, h.damage⟩, h.turrets, h.armaments, h.sensors, h.extra⟩⟩

theorem isFinite_of_number? {site : Site} {v : Option Json} {value : Option Binary64}
    (h : number? site v = .ok value) : ∀ x ∈ value, x.isFinite = true := by
  intro x hx
  obtain rfl : value = some x := hx
  match v with
  | none | some .null => cases h
  | some (.int i) =>
    rw [number?] at h
    cases hi : Binary64.ofInt? i with
    | none => rw [hi] at h; cases h
    | some y =>
      rw [hi] at h
      obtain rfl : y = x := Option.some.inj (Except.ok.inj h)
      exact Binary64.isFinite_of_ofInt? hi
  | some (.float y) =>
    rw [number?] at h
    split at h
    · next hy =>
      obtain rfl : y = x := Option.some.inj (Except.ok.inj h)
      exact hy
    · cases h
  | some (.bool _) | some (.string _) | some (.array _) | some (.object _) => cases h

/-- A number that is missing counts as zero, which is finite too. -/
theorem isFinite_getD_of_number? {site : Site} {v : Option Json} {value : Option Binary64}
    (h : number? site v = .ok value) : (value.getD 0).isFinite = true := by
  cases value with
  | none => decide +kernel
  | some x => exact isFinite_of_number? h x rfl

theorem Turret.sound_of_ofMembers {owner : Text} {index : Nat} {members : Members} {t : Turret}
    (h : ofMembers owner index members = .ok t) : t.Sound := by
  have hextra := Turret.extra_of_ofMembers h
  obtain ⟨angle, ha, h⟩ := bind_eq_ok_iff.mp h
  obtain ⟨side, hs, h⟩ := bind_eq_ok_iff.mp h
  obtain ⟨symmetrical, -, h⟩ := bind_eq_ok_iff.mp h
  obtain ⟨reference, -, h⟩ := bind_eq_ok_iff.mp h
  obtain rfl := Except.ok.inj h
  exact ⟨isFinite_getD_of_number? ha, isFinite_getD_of_number? hs, Entries.lacks_without _ _⟩

theorem Armament.sound_of_ofMembers {owner : Text} {index : Nat} {members : Members}
    {a : Armament} (h : ofMembers owner index members = .ok a) : a.Sound := by
  obtain ⟨_, -, h⟩ := bind_eq_ok_iff.mp h
  obtain ⟨angle, ha, h⟩ := bind_eq_ok_iff.mp h
  obtain ⟨side, hs, h⟩ := bind_eq_ok_iff.mp h
  obtain ⟨symmetrical, -, h⟩ := bind_eq_ok_iff.mp h
  obtain rfl := Except.ok.inj h
  exact ⟨isFinite_getD_of_number? ha, isFinite_getD_of_number? hs, Entries.lacks_without _ _⟩

theorem Sensor.sound_of_ofMembers {owner : Text} {index : Nat} {members : Members} {s : Sensor}
    (h : ofMembers owner index members = .ok s) : s.Sound := by
  obtain ⟨range, hr, h⟩ := bind_eq_ok_iff.mp h
  obtain rfl := Except.ok.inj h
  exact ⟨isFinite_of_number? hr, Entries.lacks_without _ _⟩

theorem Template.sound_of_ofMembers {owner : Text} {members : Members} {t : Template}
    (h : ofMembers owner members = .ok t) : t.Sound := by
  obtain ⟨kind, -, h⟩ := bind_eq_ok_iff.mp h
  obtain ⟨subtype, -, h⟩ := bind_eq_ok_iff.mp h
  obtain ⟨length, hl, h⟩ := bind_eq_ok_iff.mp h
  obtain ⟨range, hr, h⟩ := bind_eq_ok_iff.mp h
  obtain ⟨damage, hd, h⟩ := bind_eq_ok_iff.mp h
  obtain ⟨turrets, ht, h⟩ := bind_eq_ok_iff.mp h
  obtain ⟨armaments, ha, h⟩ := bind_eq_ok_iff.mp h
  obtain ⟨sensors, hs, h⟩ := bind_eq_ok_iff.mp h
  obtain rfl := Except.ok.inj h
  refine ⟨isFinite_of_number? hl, isFinite_of_number? hr, isFinite_of_number? hd, ?_, ?_, ?_,
    Entries.lacks_without _ _⟩
  · intro turret hm
    obtain ⟨index, object, ho⟩ := exists_object_of_mounts ht hm
    exact Turret.sound_of_ofMembers ho
  · intro armament hm
    obtain ⟨index, object, ho⟩ := exists_object_of_mounts ha hm
    exact Armament.sound_of_ofMembers ho
  · intro sensor hm
    obtain ⟨index, object, ho⟩ := exists_object_of_mounts hs hm
    exact Sensor.sound_of_ofMembers ho

theorem Table.sound_of_ofJson {members : Members} {table : Table}
    (h : ofJson (.object members) = .ok table) : ∀ entry ∈ table, entry.2.Sound := by
  intro entry he
  obtain ⟨member, -, -, hjson⟩ := exists_of_mem_forall₂ (entries_of_ofJson h) he
  obtain ⟨object, -, ho⟩ := Template.exists_members_of_ofJson hjson
  exact Template.sound_of_ofMembers ho

end Authored
end EntityTable
