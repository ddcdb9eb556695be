import EntityTable.Proofs.Authored.Reader

/-!
The shape of authored tables, said of the decoded value alone. Reading succeeds on the values of
this shape and calls all others malformed, as long as the integers under interpreted keys are not
too large.
-/

namespace EntityTable.Authored

/-! ### Shapes -/

/-- A key that is missing, or is given as null. -/
def IsUnset : Option Json → Prop
  | none | some .null => True
  | some _ => False

def IsNumber : Option Json → Prop
  | none | some .null | some (.int _) => True
  | some (.float x) => x.isFinite
  | some _ => False

def IsString : Option Json → Prop
  | none | some .null | some (.string _) => True
  | some _ => False

def IsFlag : Option Json → Prop
  | none | some .null | some (.bool _) => True
  | some _ => False

/-- A list of objects of one shape, or nothing. -/
def AreMounts (Shaped : Members → Prop) : Option Json → Prop
  | none | some .null => True
  | some (.array items) => ∀ item ∈ items, ∃ members, item = .object members ∧ Shaped members
  | some _ => False

structure Turret.Shaped (members : Members) : Prop where
  angle : IsNumber (members.get? "angle")
  side : IsNumber (members.get? "positionSide")
  symmetrical : IsFlag (members.get? "symmetrical")
  reference : IsString (members.get? "type")

structure Armament.Shaped (members : Members) : Prop where
  turret : IsUnset (members.get? "turret")
  angle : IsNumber (members.get? "angle")
  side : IsNumber (members.get? "positionSide")
  symmetrical : IsFlag (members.get? "symmetrical")

structure Sensor.Shaped (members : Members) : Prop where
  range : IsNumber (members.get? "range")

structure Template.Shaped (members : Members) : Prop where
  kind : IsString (members.get? "type")
  subtype : IsString (members.get? "subtype")
  length : IsNumber (members.get? "length")
  range : IsNumber (members.get? "range")
  damage : IsNumber (members.get? "damage")
  turrets : AreMounts Turret.Shaped (members.get? "turrets")
  armaments : AreMounts Armament.Shaped (members.get? "armaments")
  sensors : AreMounts Sensor.Shaped (members.get? "sensors")

def Table.Shaped : Json → Prop
  | .object members => ∀ entry ∈ members, ∃ template, entry.2 = .object template ∧
      Template.Shaped template
  | _ => False

/-! ### Integers under interpreted keys -/

def IntegerFits : Option Json → Prop
  | some (.int i) => (Binary64.ofInt? i).isSome
  | _ => True

def IntegersFit (keys : List Text) (members : Members) : Prop :=
  ∀ key ∈ keys, IntegerFits (members.get? key)

def MountIntegersFit (keys : List Text) : Option Json → Prop
  | some (.array items) => ∀ item ∈ items, ∀ members, item = .object members →
      IntegersFit keys members
  | _ => True

structure Template.IntegersFit (members : Members) : Prop where
  attributes : Authored.IntegersFit ["length", "range", "damage"] members
  turrets : MountIntegersFit ["angle", "positionSide"] (members.get? "turrets")
  armaments : MountIntegersFit ["angle", "positionSide"] (members.get? "armaments")
  sensors : MountIntegersFit ["range"] (members.get? "sensors")

/-- Every integer under an interpreted key of a number has a finite value. -/
def Table.IntegersFit : Json → Prop
  | .object members => ∀ entry ∈ members, ∀ template, entry.2 = .object template →
      Template.IntegersFit template
  | _ => True

/-! ### Both can be computed -/

section Deciding

variable {v : Option Json}

instance : Decidable (IsUnset v) :=
  match v with
  | none | some .null => .isTrue trivial
  | some (.bool _) | some (.int _) | some (.float _) | some (.string _) | some (.array _)
  | some (.object _) => .isFalse id

instance : Decidable (IsNumber v) :=
  match v with
  | none | some .null | some (.int _) => .isTrue trivial
  | some (.float x) => inferInstanceAs (Decidable (x.isFinite = true))
  | some (.bool _) | some (.string _) | some (.array _) | some (.object _) => .isFalse id

instance : Decidable (IsString v) :=
  match v with
  | none | some .null | some (.string _) => .isTrue trivial
  | some (.bool _) | some (.int _) | some (.float _) | some (.array _) | some (.object _) =>
    .isFalse id

instance : Decidable (IsFlag v) :=
  match v with
  | none | some .null | some (.bool _) => .isTrue trivial
  | some (.int _) | some (.float _) | some (.string _) | some (.array _) | some (.object _) =>
    .isFalse id

instance : Decidable (IntegerFits v) :=
  match v with
  | some (.int i) => inferInstanceAs (Decidable ((Binary64.ofInt? i).isSome = true))
  | none | some .null | some (.bool _) | some (.float _) | some (.string _) | some (.array _)
  | some (.object _) => .isTrue trivial

variable {Shaped : Members → Prop} [DecidablePred Shaped]

instance (v : Json) : Decidable (∃ members, v = .object members ∧ Shaped members) :=
  match v with
  | .object members => decidable_of_iff (Shaped members) (by simp)
  | .null | .bool _ | .int _ | .float _ | .string _ | .array _ => .isFalse (by simp)

instance (v : Json) : Decidable (∀ members, v = .object members → Shaped members) :=
  match v with
  | .object members => decidable_of_iff (Shaped members) (by simp)
  | .null | .bool _ | .int _ | .float _ | .string _ | .array _ => .isTrue (by simp)

instance : Decidable (AreMounts Shaped v) :=
  match v with
  | none | some .null => .isTrue trivial
  | some (.array items) =>
    inferInstanceAs (Decidable (∀ item ∈ items, ∃ members, item = .object members ∧ Shaped members))
  | some (.bool _) | some (.int _) | some (.float _) | some (.string _) | some (.object _) =>
    .isFalse id

variable {keys : List Text} {members : Members}

instance : DecidablePred (IntegersFit keys) := fun members =>
  inferInstanceAs (Decidable (∀ key ∈ keys, IntegerFits (members.get? key)))

instance : Decidable (MountIntegersFit keys v) :=
  match v with
  | some (.array items) => inferInstanceAs (Decidable (∀ item ∈ items, ∀ members,
      item = .object members → IntegersFit keys members))
  | none | some .null | some (.bool _) | some (.int _) | some (.float _) | some (.string _)
  | some (.object _) => .isTrue trivial

instance : DecidablePred Turret.Shaped := fun _ =>
  decidable_of_iff (_ ∧ _ ∧ _ ∧ _)
      ⟨fun ⟨a, s, y, r⟩ => ⟨a, s, y, r⟩, fun ⟨a, s, y, r⟩ => ⟨a, s, y, r⟩⟩

instance : DecidablePred Armament.Shaped := fun _ =>
  decidable_of_iff (_ ∧ _ ∧ _ ∧ _)
      ⟨fun ⟨t, a, s, y⟩ => ⟨t, a, s, y⟩, fun ⟨t, a, s, y⟩ => ⟨t, a, s, y⟩⟩

instance : DecidablePred Sensor.Shaped := fun _ =>
  decidable_of_iff _ ⟨fun r => ⟨r⟩, fun ⟨r⟩ => r⟩

instance : DecidablePred Template.Shaped := fun _ =>
  decidable_of_iff (_ ∧ _ ∧ _ ∧ _ ∧ _ ∧ _ ∧ _ ∧ _)
    ⟨fun ⟨k, s, l, r, d, t, a, e⟩ => ⟨k, s, l, r, d, t, a, e⟩,
      fun ⟨k, s, l, r, d, t, a, e⟩ => ⟨k, s, l, r, d, t, a, e⟩⟩

instance : DecidablePred Template.IntegersFit := fun _ =>
  decidable_of_iff (_ ∧ _ ∧ _ ∧ _)
      ⟨fun ⟨n, t, a, e⟩ => ⟨n, t, a, e⟩, fun ⟨n, t, a, e⟩ => ⟨n, t, a, e⟩⟩

instance : DecidablePred Table.Shaped
  | .object members => inferInstanceAs (Decidable (∀ entry ∈ members, ∃ template,
      entry.2 = .object template ∧ Template.Shaped template))
  | .null | .bool _ | .int _ | .float _ | .string _ | .array _ => .isFalse id

instance : DecidablePred Table.IntegersFit
  | .object members => inferInstanceAs (Decidable (∀ entry ∈ members, ∀ template,
      entry.2 = .object template → Template.IntegersFit template))
  | .null | .bool _ | .int _ | .float _ | .string _ | .array _ => .isTrue trivial

end Deciding

/-! ### Judging by reading -/

/-- The outcome of a reading tells whether what was read has a certain shape. -/
inductive Judges (Shaped : Prop) {α : Type} : Except Failure α → Prop
  | accepted (a : α) (shaped : Shaped) : Judges Shaped (.ok a)
  | refused (offence : Offence) (owner : Option Text) (field : Option FieldPath)
      (misshaped : ¬Shaped) : Judges Shaped (.error (.malformed offence owner field))

/-! ### Objects in lists of mounts -/

theorem forall_mem_zipIdx {α : Type} {shaped : α → Prop} {xs : List α} :
    (∀ entry ∈ xs.zipIdx, shaped entry.1) ↔ ∀ x ∈ xs, shaped x := by
  conv_rhs => rw [← List.zipIdx_map_fst 0 xs]
  exact List.forall_mem_map.symm

theorem mountObject_eq_ok {owner : Text} {list : MountList} {index : Nat} {item : Json}
    {object : Members} (h : mountObject owner list index item = .ok object) :
    item = .object object := by
  cases item with
  | object members => rw [Except.ok.inj h]
  | _ => cases h

/-- The objects of a list of mounts, in their order. -/
theorem mountObjects_eq_ok {owner : Text} {members : Members} {list : MountList}
    {objects : List Members} (h : mountObjects owner members list = .ok objects) :
    IsUnset (members.get? list.key) ∧ objects = [] ∨
      members.get? list.key = some (.array (objects.map .object)) := by
  unfold mountObjects at h
  split at h
  · next hnone => exact .inl ⟨by simp [hnone, IsUnset], (Except.ok.inj h).symm⟩
  · next hnull => exact .inl ⟨by simp [hnull, IsUnset], (Except.ok.inj h).symm⟩
  · next items harray =>
    have hobjects : List.Forall₂ (fun (entry : Json × Nat) object => entry.1 = .object object)
        items.zipIdx objects :=
      (mapM_eq_ok_iff.mp h).imp fun entry object ho => mountObject_eq_ok ho
    have hitems : items.zipIdx.map Prod.fst = objects.map .object := by
      rw [← List.forall₂_eq_eq_eq, List.forall₂_map_left_iff, List.forall₂_map_right_iff]
      exact hobjects
    rw [List.zipIdx_map_fst] at hitems
    exact .inr (by rw [harray, hitems])
  · cases h

theorem areMounts_objects {Shaped : Members → Prop} {v : Option Json} {objects : List Members}
    (h : IsUnset v ∧ objects = [] ∨ v = some (.array (objects.map .object))) :
    AreMounts Shaped v ↔ ∀ object ∈ objects, Shaped object := by
  rcases h with ⟨hunset, rfl⟩ | rfl
  · unfold IsUnset at hunset
    split at hunset
    · simp [AreMounts]
    · simp [AreMounts]
    · cases hunset
  · simp [AreMounts]

theorem AreMounts.imp {P Q : Members → Prop} {v : Option Json}
    (h : ∀ members, P members → Q members) (hp : AreMounts P v) : AreMounts Q v := by
  unfold AreMounts at hp ⊢
  split
  · trivial
  · trivial
  · intro item hm
    obtain ⟨members, hitem, hmembers⟩ := hp item hm
    exact ⟨members, hitem, h members hmembers⟩
  · next v hnull harray => simp at hp

end EntityTable.Authored
