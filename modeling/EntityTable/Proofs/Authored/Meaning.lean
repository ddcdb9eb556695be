import EntityTable.Proofs.Authored.Faults

/-!
What authored objects mean once they are accepted, without the reports for those that are not.
-/

namespace EntityTable.Authored

def numberOf : Option Json → Option Binary64
  | some (.int i) => Binary64.ofInt? i
  | some (.float x) => some x
  | _ => none

def stringOf : Option Json → Option Text
  | some (.string t) => some t
  | _ => none

def flagOf : Option Json → Bool
  | some (.bool b) => b
  | _ => false

def objectOf : Json → Members
  | .object members => members
  | _ => []

/-- The objects in a list of mounts. -/
def objectsOf : Option Json → List Members
  | some (.array items) => items.map objectOf
  | _ => []

def Turret.meaning (members : Members) : Turret :=
  ⟨(numberOf (members.get? "angle")).getD 0, (numberOf (members.get? "positionSide")).getD 0,
    flagOf (members.get? "symmetrical"), stringOf (members.get? "type"),
    members.without Turret.knownKeys⟩

def Armament.meaning (members : Members) : Armament :=
  ⟨(numberOf (members.get? "angle")).getD 0, (numberOf (members.get? "positionSide")).getD 0,
    flagOf (members.get? "symmetrical"), members.without Armament.knownKeys⟩

def Sensor.meaning (members : Members) : Sensor :=
  ⟨numberOf (members.get? "range"), members.without Sensor.knownKeys⟩

def Template.meaning (members : Members) : Template :=
  ⟨stringOf (members.get? "type"), stringOf (members.get? "subtype"),
    numberOf (members.get? "length"), numberOf (members.get? "range"),
    numberOf (members.get? "damage"),
    (objectsOf (members.get? "turrets")).map Turret.meaning,
    (objectsOf (members.get? "armaments")).map Armament.meaning,
    (objectsOf (members.get? "sensors")).map Sensor.meaning,
    members.without Template.knownKeys⟩

def Table.meaning (members : Members) : Table :=
  members.mapValues fun _ v => Template.meaning (objectOf v)

/-! ### Fields -/

section Fields

variable {site : Site} {v : Option Json}

theorem eq_numberOf {x : Option Binary64} (h : number? site v = .ok x) : x = numberOf v := by
  match v with
  | none | some .null => exact (Except.ok.inj h).symm
  | some (.int i) =>
    rw [number?] at h
    rw [numberOf]
    generalize Binary64.ofInt? i = y at h ⊢
    cases y with
    | none => cases h
    | some y => exact (Except.ok.inj h).symm
  | some (.float y) =>
    rw [number?] at h
    split at h
    · exact (Except.ok.inj h).symm
    · cases h
  | some (.bool _) | some (.string _) | some (.array _) | some (.object _) => cases h

theorem eq_stringOf {t : Option Text} (h : string? site v = .ok t) : t = stringOf v := by
  unfold string? at h
  split at h
  · exact (Except.ok.inj h).symm
  · exact (Except.ok.inj h).symm
  · exact (Except.ok.inj h).symm
  · cases h

theorem eq_flagOf {b : Bool} (h : flag site v = .ok b) : b = flagOf v := by
  unfold flag at h
  split at h
  · exact (Except.ok.inj h).symm
  · exact (Except.ok.inj h).symm
  · exact (Except.ok.inj h).symm
  · cases h

theorem stringOf_eq_some_iff {t : Text} : stringOf v = some t ↔ v = some (.string t) := by
  unfold stringOf
  split
  · simp
  · next hstring =>
    constructor
    · intro h
      cases h
    · intro h
      exact absurd h (hstring t)

/-- A number field without a value is one that is not set. -/
theorem numberOf_eq_none_iff (hshape : IsNumber v) (hfit : IntegerFits v) :
    numberOf v = none ↔ IsUnset v := by
  match v with
  | none | some .null => exact ⟨fun _ => trivial, fun _ => rfl⟩
  | some (.int i) =>
    obtain ⟨x, hx⟩ := Option.isSome_iff_exists.mp hfit
    simp [numberOf, hx, IsUnset]
  | some (.float x) => simp [numberOf, IsUnset]
  | some (.bool _) | some (.string _) | some (.array _) | some (.object _) => cases hshape

end Fields

/-! ### Mounts -/

theorem mountObjects_eq_objectsOf {owner : Text} {members : Members} {list : MountList}
    {objects : List Members} (h : mountObjects owner members list = .ok objects) :
    objects = objectsOf (members.get? list.key) := by
  rcases mountObjects_eq_ok h with ⟨hunset, rfl⟩ | harray
  · generalize members.get? list.key = v at hunset
    unfold IsUnset at hunset
    split at hunset
    · rfl
    · rfl
    · cases hunset
  · have hobject : objectOf ∘ Json.object = id := rfl
    rw [harray, objectsOf, List.map_map, hobject, List.map_id]

theorem getElem?_objectsOf_eq_some_iff {v : Option Json} {index : Nat} {object : Members} :
    (objectsOf v)[index]? = some object ↔ ∃ items item, v = some (.array items) ∧
      items[index]? = some item ∧ objectOf item = object := by
  unfold objectsOf
  split
  · next items =>
    rw [List.getElem?_map, Option.map_eq_some_iff]
    constructor
    · rintro ⟨item, hitem, hobject⟩
      exact ⟨items, item, rfl, hitem, hobject⟩
    · rintro ⟨listed, item, heq, hitem, hobject⟩
      obtain rfl := Json.array.inj (Option.some.inj heq)
      exact ⟨item, hitem, hobject⟩
  · next harray =>
    constructor
    · intro h
      cases h
    · rintro ⟨items, -, rfl, -⟩
      exact absurd rfl (harray items)

theorem exists_item_of_mem_objectsOf {v : Option Json} {object : Members}
    (h : object ∈ objectsOf v) :
    ∃ items item, v = some (.array items) ∧ item ∈ items ∧ objectOf item = object := by
  obtain ⟨index, hindex⟩ := List.mem_iff_getElem?.mp h
  obtain ⟨items, item, hv, hitem, hobject⟩ := getElem?_objectsOf_eq_some_iff.mp hindex
  exact ⟨items, item, hv, List.mem_of_getElem? hitem, hobject⟩

theorem mem_objectsOf_iff {Shaped : Members → Prop} {v : Option Json} (h : AreMounts Shaped v)
    {object : Members} :
    object ∈ objectsOf v ↔ ∃ items, v = some (.array items) ∧ .object object ∈ items := by
  match v with
  | some (.array items) =>
    simp only [objectsOf, List.mem_map, Option.some.injEq, Json.array.injEq, exists_eq_left']
    constructor
    · intro hm
      obtain ⟨item, hitem, rfl⟩ := hm
      obtain ⟨members, rfl, -⟩ := h item hitem
      exact hitem
    · intro hm
      exact ⟨_, hm, rfl⟩
  | none | some .null | some (.bool _) | some (.int _) | some (.float _) | some (.string _)
  | some (.object _) => simp [objectsOf]

theorem mounts_eq_map {α : Type} {owner : Text} {members : Members} {list : MountList}
    {ofMembers : Text → Nat → Members → Except Failure α} {meaning : Members → α}
    {mounted : List α} (hread : ∀ index object mount, ofMembers owner index object = .ok mount →
      mount = meaning object) (h : mounts owner members list ofMembers = .ok mounted) :
    mounted = (objectsOf (members.get? list.key)).map meaning := by
  obtain ⟨objects, hobjects, h⟩ := bind_eq_ok_iff.mp h
  have heach : List.Forall₂ (fun (entry : Members × Nat) mount => meaning entry.1 = mount)
      objects.zipIdx mounted :=
    (mapM_eq_ok_iff.mp h).imp fun entry mount hmount => (hread _ _ _ hmount).symm
  have hmap : objects.zipIdx.map (fun entry => meaning entry.1) = mounted := by
    rw [← List.forall₂_eq_eq_eq, List.forall₂_map_left_iff]
    exact heach
  have hfst : (fun entry : Members × Nat => meaning entry.1) = meaning ∘ Prod.fst := rfl
  rw [← mountObjects_eq_objectsOf hobjects, ← hmap, hfst, ← List.map_map, List.zipIdx_map_fst]

theorem Turret.eq_meaning {owner : Text} {index : Nat} {members : Members} {t : Turret}
    (h : ofMembers owner index members = .ok t) : t = meaning members := by
  obtain ⟨angle, hangle, h⟩ := bind_eq_ok_iff.mp h
  obtain ⟨side, hside, h⟩ := bind_eq_ok_iff.mp h
  obtain ⟨symmetrical, hsymmetrical, h⟩ := bind_eq_ok_iff.mp h
  obtain ⟨reference, hreference, h⟩ := bind_eq_ok_iff.mp h
  rw [← Except.ok.inj h, eq_numberOf hangle, eq_numberOf hside, eq_flagOf hsymmetrical,
    eq_stringOf hreference, meaning]

theorem Armament.eq_meaning {owner : Text} {index : Nat} {members : Members} {a : Armament}
    (h : ofMembers owner index members = .ok a) : a = meaning members := by
  obtain ⟨_, -, h⟩ := bind_eq_ok_iff.mp h
  obtain ⟨angle, hangle, h⟩ := bind_eq_ok_iff.mp h
  obtain ⟨side, hside, h⟩ := bind_eq_ok_iff.mp h
  obtain ⟨symmetrical, hsymmetrical, h⟩ := bind_eq_ok_iff.mp h
  rw [← Except.ok.inj h, eq_numberOf hangle, eq_numberOf hside, eq_flagOf hsymmetrical, meaning]

theorem Sensor.eq_meaning {owner : Text} {index : Nat} {members : Members} {s : Sensor}
    (h : ofMembers owner index members = .ok s) : s = meaning members := by
  obtain ⟨range, hrange, h⟩ := bind_eq_ok_iff.mp h
  rw [← Except.ok.inj h, eq_numberOf hrange, meaning]

/-! ### Templates and tables -/

theorem Template.eq_meaning {owner : Text} {members : Members} {t : Template}
    (h : ofMembers owner members = .ok t) : t = meaning members := by
  obtain ⟨kind, hkind, h⟩ := bind_eq_ok_iff.mp h
  obtain ⟨subtype, hsubtype, h⟩ := bind_eq_ok_iff.mp h
  obtain ⟨length, hlength, h⟩ := bind_eq_ok_iff.mp h
  obtain ⟨range, hrange, h⟩ := bind_eq_ok_iff.mp h
  obtain ⟨damage, hdamage, h⟩ := bind_eq_ok_iff.mp h
  obtain ⟨turrets, hturrets, h⟩ := bind_eq_ok_iff.mp h
  obtain ⟨armaments, harmaments, h⟩ := bind_eq_ok_iff.mp h
  obtain ⟨sensors, hsensors, h⟩ := bind_eq_ok_iff.mp h
  have ht := mounts_eq_map (fun _ _ _ => Turret.eq_meaning) hturrets
  have ha := mounts_eq_map (fun _ _ _ => Armament.eq_meaning) harmaments
  have hs := mounts_eq_map (fun _ _ _ => Sensor.eq_meaning) hsensors
  rw [← Except.ok.inj h, eq_stringOf hkind, eq_stringOf hsubtype, eq_numberOf hlength,
    eq_numberOf hrange, eq_numberOf hdamage, ht, ha, hs]
  rfl

theorem Template.eq_meaning_of_ofJson {owner : Text} {v : Json} {t : Template}
    (h : ofJson owner v = .ok t) : t = meaning (objectOf v) := by
  cases v with
  | object members => exact eq_meaning h
  | _ => cases h

theorem Table.eq_meaning {members : Members} {table : Table}
    (h : Table.ofJson (.object members) = .ok table) : table = meaning members := by
  have heach : List.Forall₂ (fun (member : Text × Json) entry =>
      (member.1, Template.meaning (objectOf member.2)) = entry) members table := by
    refine (mapM_eq_ok_iff.mp h).imp fun member entry hentry => ?_
    obtain ⟨t, ht, hentry⟩ := bind_eq_ok_iff.mp hentry
    rw [← Except.ok.inj hentry, Template.eq_meaning_of_ofJson ht]
  rw [← List.forall₂_map_left_iff, List.forall₂_eq_eq_eq] at heach
  exact heach.symm

/-- Whatever has the shape of a table is read as what it means. -/
theorem Table.ofJson_of_shaped {members : Members} (hfit : Table.IntegersFit (.object members))
    (h : Table.Shaped (.object members)) :
    Table.ofJson (.object members) = .ok (meaning members) := by
  have hjudged := judges_table hfit
  cases hread : Table.ofJson (.object members) with
  | ok table => rw [Table.eq_meaning hread]
  | error failure =>
    rw [hread] at hjudged
    cases hjudged with
    | refused offence owner field misshaped => exact absurd h misshaped

end EntityTable.Authored
