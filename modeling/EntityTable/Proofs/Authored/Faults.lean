import EntityTable.Proofs.Authored.Shape

/-!
What a table is refused for. A report names a template and a place in it, and at that place stands
what must not stand there. Apart from that, only an integer without a finite value ends the reading.
-/

namespace EntityTable.Authored

/-! ### Faults -/

/-- What has to stand under an interpreted key, if anything does. -/
inductive Kind
  | number
  | string
  | flag
  | nothing

namespace Kind

def Admits : Kind → Option Json → Prop
  | number => IsNumber
  | string => IsString
  | flag => IsFlag
  | nothing => IsUnset

/-- How a value is reported that is not of the kind. -/
def offence : Kind → Json → Offence
  | number, v => .notNumber v
  | string, v => .notString v.typeName
  | flag, v => .notBool v.typeName
  | nothing, _ => .turretDeclared

end Kind

abbrev Attributes := List (Text × Kind)

def templateAttributes : Attributes :=
  [("type", .string), ("subtype", .string), ("length", .number), ("range", .number),
    ("damage", .number)]

def mountAttributes : MountList → Attributes
  | .turrets =>
    [("angle", .number), ("positionSide", .number), ("symmetrical", .flag), ("type", .string)]
  | .armaments =>
    [("turret", .nothing), ("angle", .number), ("positionSide", .number), ("symmetrical", .flag)]
  | .sensors => [("range", .number)]

/-- What stands under the key is not of the kind that has to stand there, and is reported so. -/
structure Misfits (attributes : Attributes) (members : Members) (key : Text) (kind : Kind)
    (v : Json) : Prop where
  interpreted : (key, kind) ∈ attributes
  found : members.get? key = some v
  alien : ¬kind.Admits (some v)

/-- What is wrong at a place in a template. -/
inductive Template.AtFault (template : Members) : FieldPath → Offence → Prop
  | direct (key : Text) (kind : Kind) (v : Json)
      (misfits : Misfits templateAttributes template key kind v) :
      AtFault template (.direct key) (kind.offence v)
  | list (list : MountList) (v : Json) (found : template.get? list.key = some v)
      (set : v ≠ .null) (alien : ∀ items, v ≠ .array items) :
      AtFault template (.direct list.key) (.notList v.typeName)
  | mount (list : MountList) (items : List Json) (index : Nat) (item : Json)
      (found : template.get? list.key = some (.array items)) (listed : items[index]? = some item)
      (alien : ∀ object, item ≠ .object object) :
      AtFault template (.mount list index) (.notObject item.typeName)
  | mountAttribute (list : MountList) (items : List Json) (index : Nat) (object : Members)
      (key : Text) (kind : Kind) (v : Json)
      (found : template.get? list.key = some (.array items))
      (listed : items[index]? = some (.object object))
      (misfits : Misfits (mountAttributes list) object key kind v) :
      AtFault template (.mountAttribute list index key) (kind.offence v)

/-- The failures that tell what is wrong with a value that is to be a template. -/
inductive Template.Refuses (owner : Text) : Json → Failure → Prop
  | notTemplate (v : Json) (alien : ∀ template, v ≠ .object template) :
      Refuses owner v (.malformed (.notTemplate v.typeName) (some owner) none)
  | atFault (template : Members) (path : FieldPath) (offence : Offence)
      (fault : AtFault template path offence) :
      Refuses owner (.object template) (.malformed offence (some owner) (some path))

/-- The failures that tell what is wrong with a value that is to be a table. -/
inductive Table.Refuses : Json → Failure → Prop
  | notTable (v : Json) (alien : ∀ members, v ≠ .object members) :
      Refuses v (.malformed (.notTable v.typeName) none none)
  | template (members : Members) (key : Text) (v : Json) (failure : Failure)
      (entry : (key, v) ∈ members) (refuses : Template.Refuses key v failure) :
      Refuses (.object members) failure

/-! ### Telling by reading -/

/-- The outcome of a reading tells the truth: what is accepted has the right shape and integers that
fit, a report names a fault, and otherwise an integer does not fit. -/
inductive Tells (Fits Shaped : Prop) (Faulty : Failure → Prop) {α : Type} :
    Except Failure α → Prop
  | accepted (a : α) (fits : Fits) (shaped : Shaped) : Tells Fits Shaped Faulty (.ok a)
  | refused (failure : Failure) (misshaped : ¬Shaped) (faulty : Faulty failure) :
      Tells Fits Shaped Faulty (.error failure)
  | tooLarge (unfit : ¬Fits) : Tells Fits Shaped Faulty (.error .integerTooLarge)

namespace Tells

variable {α β : Type} {p q s t : Prop} {Faulty Faulty' : Failure → Prop}

theorem congr {x : Except Failure α} (h : Tells p s Faulty x) (hfits : p ↔ q) (hshaped : s ↔ t) :
    Tells q t Faulty x := by
  cases h with
  | accepted a fits shaped => exact .accepted a (hfits.mp fits) (hshaped.mp shaped)
  | refused failure misshaped faulty =>
    exact .refused failure (fun ht => misshaped (hshaped.mpr ht)) faulty
  | tooLarge unfit => exact .tooLarge fun hq => unfit (hfits.mpr hq)

theorem imp {x : Except Failure α} (h : Tells p s Faulty x)
    (himp : ∀ failure, Faulty failure → Faulty' failure) : Tells p s Faulty' x := by
  cases h with
  | accepted a fits shaped => exact .accepted a fits shaped
  | refused failure misshaped faulty => exact .refused failure misshaped (himp failure faulty)
  | tooLarge unfit => exact .tooLarge unfit

/-- What is read second is looked at only if what is read first is accepted. -/
theorem bind {x : Except Failure α} {f : α → Except Failure β} (hx : Tells p s Faulty x)
    (hf : ∀ a, x = .ok a → Tells q t Faulty (f a)) :
    Tells (p ∧ q) (s ∧ t) Faulty (x >>= f) := by
  cases hx with
  | accepted a fits shaped =>
    exact (hf a rfl).congr ⟨fun hq => ⟨fits, hq⟩, And.right⟩ ⟨fun ht => ⟨shaped, ht⟩, And.right⟩
  | refused failure misshaped faulty => exact .refused failure (fun h => misshaped h.1) faulty
  | tooLarge unfit => exact .tooLarge fun h => unfit h.1

theorem mapM {f : α → Except Failure β} {fits shaped : α → Prop} {xs : List α}
    (h : ∀ x ∈ xs, Tells (fits x) (shaped x) Faulty (f x)) :
    Tells (∀ x ∈ xs, fits x) (∀ x ∈ xs, shaped x) Faulty (xs.mapM f) := by
  induction xs with
  | nil => exact .accepted [] (by simp) (by simp)
  | cons x xs ih =>
    obtain ⟨hfirst, hrest⟩ := List.forall_mem_cons.mp h
    rw [List.mapM_cons]
    have hlist := hfirst.bind fun y _ =>
      (ih hrest).bind fun ys _ => .accepted (α := List β) (y :: ys) trivial trivial
    exact hlist.congr (by simp) (by simp)

end Tells

section Fields

variable {site : Site} {v : Option Json} {Faulty : Failure → Prop}

/-- What the report of a misfit at a site says is a fault. -/
def Blames (Faulty : Failure → Prop) (site : Site) (kind : Kind) (v : Option Json) : Prop :=
  ∀ w, v = some w → ¬kind.Admits (some w) →
    Faulty (.malformed (kind.offence w) (some site.owner) (some site.field))

theorem tells_number? (h : Blames Faulty site .number v) :
    Tells (IntegerFits v) (IsNumber v) Faulty (number? site v) := by
  match v with
  | none | some .null => exact .accepted none trivial trivial
  | some (.int i) =>
    rw [number?]
    cases hi : Binary64.ofInt? i with
    | none => exact .tooLarge (by simp [IntegerFits, hi])
    | some x => exact .accepted (some x) (by simp [IntegerFits, hi]) trivial
  | some (.float x) =>
    rw [number?]
    split
    · next hx => exact .accepted (some x) trivial hx
    · next hx => exact .refused _ hx (h _ rfl hx)
  | some (.bool _) | some (.string _) | some (.array _) | some (.object _) =>
    exact .refused _ id (h _ rfl id)

theorem tells_string? (h : Blames Faulty site .string v) :
    Tells True (IsString v) Faulty (string? site v) := by
  match v with
  | none | some .null => exact .accepted none trivial trivial
  | some (.string t) => exact .accepted (some t) trivial trivial
  | some (.bool _) | some (.int _) | some (.float _) | some (.array _) | some (.object _) =>
    exact .refused _ id (h _ rfl id)

theorem tells_flag (h : Blames Faulty site .flag v) :
    Tells True (IsFlag v) Faulty (flag site v) := by
  match v with
  | none | some .null => exact .accepted false trivial trivial
  | some (.bool b) => exact .accepted b trivial trivial
  | some (.int _) | some (.float _) | some (.string _) | some (.array _) | some (.object _) =>
    exact .refused _ id (h _ rfl id)

theorem tells_refuseTurret (h : Blames Faulty site .nothing v) :
    Tells True (IsUnset v) Faulty (Armament.refuseTurret site v) := by
  match v with
  | none | some .null => exact .accepted () trivial trivial
  | some (.bool _) | some (.int _) | some (.float _) | some (.string _) | some (.array _)
  | some (.object _) => exact .refused _ id (h _ rfl id)

end Fields

/-! ### Mounts, templates and tables -/

section Mounts

variable {owner : Text} {members : Members} {index : Nat} {Faulty : Failure → Prop}

/-- The reports of misfits in a mount are faults. -/
def BlamesMount (Faulty : Failure → Prop) (owner : Text) (list : MountList) (index : Nat)
    (members : Members) : Prop :=
  ∀ key kind v, Misfits (mountAttributes list) members key kind v →
    Faulty (.malformed (kind.offence v) (some owner) (some (.mountAttribute list index key)))

theorem BlamesMount.blames {list : MountList} (h : BlamesMount Faulty owner list index members)
    {key : Text} {kind : Kind} (hk : (key, kind) ∈ mountAttributes list) :
    Blames Faulty ⟨owner, .mountAttribute list index key⟩ kind (members.get? key) :=
  fun v hv halien => h key kind v ⟨hk, hv, halien⟩

theorem tells_turret (h : BlamesMount Faulty owner .turrets index members) :
    Tells (IntegersFit ["angle", "positionSide"] members) (Turret.Shaped members) Faulty
      (Turret.ofMembers owner index members) := by
  have hread : Tells _ _ Faulty (Turret.ofMembers owner index members) :=
    (tells_number? (h.blames (by simp [mountAttributes]))).bind fun angle _ =>
    (tells_number? (h.blames (by simp [mountAttributes]))).bind fun side _ =>
    (tells_flag (h.blames (by simp [mountAttributes]))).bind fun symmetrical _ =>
    (tells_string? (h.blames (by simp [mountAttributes]))).bind fun reference _ =>
      .accepted _ trivial trivial
  refine hread.congr (by simp [IntegersFit]) ⟨?_, ?_⟩
  · rintro ⟨ha, hs, hy, hr, -⟩
    exact ⟨ha, hs, hy, hr⟩
  · rintro ⟨ha, hs, hy, hr⟩
    exact ⟨ha, hs, hy, hr, trivial⟩

theorem tells_armament (h : BlamesMount Faulty owner .armaments index members) :
    Tells (IntegersFit ["angle", "positionSide"] members) (Armament.Shaped members) Faulty
      (Armament.ofMembers owner index members) := by
  have hread : Tells _ _ Faulty (Armament.ofMembers owner index members) :=
    (tells_refuseTurret (h.blames (by simp [mountAttributes]))).bind fun _ _ =>
    (tells_number? (h.blames (by simp [mountAttributes]))).bind fun angle _ =>
    (tells_number? (h.blames (by simp [mountAttributes]))).bind fun side _ =>
    (tells_flag (h.blames (by simp [mountAttributes]))).bind fun symmetrical _ =>
      .accepted _ trivial trivial
  refine hread.congr (by simp [IntegersFit]) ⟨?_, ?_⟩
  · rintro ⟨ht, ha, hs, hy, -⟩
    exact ⟨ht, ha, hs, hy⟩
  · rintro ⟨ht, ha, hs, hy⟩
    exact ⟨ht, ha, hs, hy, trivial⟩

theorem tells_sensor (h : BlamesMount Faulty owner .sensors index members) :
    Tells (IntegersFit ["range"] members) (Sensor.Shaped members) Faulty
      (Sensor.ofMembers owner index members) := by
  have hread : Tells _ _ Faulty (Sensor.ofMembers owner index members) :=
    (tells_number? (h.blames (by simp [mountAttributes]))).bind fun range _ =>
      .accepted _ trivial trivial
  refine hread.congr (by simp [IntegersFit]) ⟨?_, ?_⟩
  · rintro ⟨hr, -⟩
    exact ⟨hr⟩
  · rintro ⟨hr⟩
    exact ⟨hr, trivial⟩

end Mounts

section Templates

variable {owner : Text} {template : Members}

theorem tells_mountObjects {list : MountList} :
    Tells True (AreMounts (fun _ => True) (template.get? list.key))
      (Template.Refuses owner (.object template)) (mountObjects owner template list) := by
  unfold mountObjects
  split
  · next h => exact .accepted [] trivial (by simp [h, AreMounts])
  · next h => exact .accepted [] trivial (by simp [h, AreMounts])
  · next items hitems =>
    have heach : Tells (∀ entry ∈ items.zipIdx, True)
        (∀ entry ∈ items.zipIdx, ∃ members, entry.1 = .object members)
        (Template.Refuses owner (.object template))
        (items.zipIdx.mapM fun entry => mountObject owner list entry.2 entry.1) := by
      refine Tells.mapM fun entry he => ?_
      obtain ⟨item, index⟩ := entry
      have hlisted : items[index]? = some item := List.mem_zipIdx_iff_getElem?.mp he
      cases item with
      | object members => exact .accepted members trivial ⟨members, rfl⟩
      | _ =>
        exact .refused _ (by simp)
          (.atFault _ _ _ (.mount list items index _ hitems hlisted (by simp)))
    rw [hitems]
    refine heach.congr (by simp) (Iff.trans ?_ (by simp only [AreMounts, and_true]; exact Iff.rfl))
    exact @forall_mem_zipIdx _ (fun item => ∃ members, item = .object members) items
  · next v hnull harray hv =>
    refine .refused _ ?_ (.atFault _ _ _ (.list list v hv ?_ ?_))
    · rw [hv]
      cases v <;> simp_all [AreMounts]
    · rintro rfl
      exact hnull rfl
    · rintro items rfl
      exact harray items rfl

theorem tells_mounts {α : Type} {list : MountList} {keys : List Text} {Shaped : Members → Prop}
    {ofMembers : Text → Nat → Members → Except Failure α}
    (h : ∀ index object, BlamesMount (Template.Refuses owner (.object template)) owner list index
      object → Tells (IntegersFit keys object) (Shaped object)
        (Template.Refuses owner (.object template)) (ofMembers owner index object)) :
    Tells (MountIntegersFit keys (template.get? list.key))
      (AreMounts Shaped (template.get? list.key))
      (Template.Refuses owner (.object template)) (mounts owner template list ofMembers) := by
  have hobjects (objects : List Members) (ho : mountObjects owner template list = .ok objects) :
      Tells (MountIntegersFit keys (template.get? list.key))
        (AreMounts Shaped (template.get? list.key)) (Template.Refuses owner (.object template))
        (objects.zipIdx.mapM fun entry => ofMembers owner entry.2 entry.1) := by
    have hread := mountObjects_eq_ok ho
    have heach : Tells (∀ entry ∈ objects.zipIdx, IntegersFit keys entry.1)
        (∀ entry ∈ objects.zipIdx, Shaped entry.1) (Template.Refuses owner (.object template))
        (objects.zipIdx.mapM fun entry => ofMembers owner entry.2 entry.1) := by
      refine Tells.mapM fun entry he => h entry.2 entry.1 fun key kind v hmisfits => ?_
      have hlisted : objects[entry.2]? = some entry.1 := List.mem_zipIdx_iff_getElem?.mp he
      rcases hread with ⟨-, rfl⟩ | harray
      · simp at hlisted
      · exact .atFault _ _ _ (.mountAttribute list _ entry.2 entry.1 key kind v harray
          (by simp [hlisted]) hmisfits)
    refine heach.congr ?_ ?_
    · rw [forall_mem_zipIdx]
      rcases hread with ⟨hunset, rfl⟩ | harray
      · generalize template.get? list.key = v at hunset
        unfold IsUnset at hunset
        split at hunset <;> simp_all [MountIntegersFit]
      · simp [harray, MountIntegersFit]
    · rw [areMounts_objects hread]
      exact forall_mem_zipIdx
  exact (tells_mountObjects.bind hobjects).congr (and_iff_right trivial)
    ⟨And.right, fun hs => ⟨hs.imp fun _ _ => trivial, hs⟩⟩

theorem tells_template : Tells (Template.IntegersFit template) (Template.Shaped template)
    (Template.Refuses owner (.object template)) (Template.ofMembers owner template) := by
  have hfield {key : Text} {kind : Kind} (hk : (key, kind) ∈ templateAttributes) :
      Blames (Template.Refuses owner (.object template)) ⟨owner, .direct key⟩ kind
        (template.get? key) :=
    fun v hv halien => .atFault _ _ _ (.direct key kind v ⟨hk, hv, halien⟩)
  have hread : Tells _ _ (Template.Refuses owner (.object template))
      (Template.ofMembers owner template) :=
    (tells_string? (hfield (by simp [templateAttributes]))).bind fun kind _ =>
    (tells_string? (hfield (by simp [templateAttributes]))).bind fun subtype _ =>
    (tells_number? (hfield (by simp [templateAttributes]))).bind fun length _ =>
    (tells_number? (hfield (by simp [templateAttributes]))).bind fun range _ =>
    (tells_number? (hfield (by simp [templateAttributes]))).bind fun damage _ =>
    (tells_mounts fun _ _ => tells_turret).bind fun turrets _ =>
    (tells_mounts fun _ _ => tells_armament).bind fun armaments _ =>
    (tells_mounts fun _ _ => tells_sensor).bind fun sensors _ => .accepted _ trivial trivial
  refine hread.congr ⟨?_, ?_⟩ ⟨?_, ?_⟩
  · rintro ⟨-, -, hl, hr, hd, ht, ha, hs, -⟩
    exact ⟨by simp [IntegersFit, hl, hr, hd], ht, ha, hs⟩
  · rintro ⟨hn, ht, ha, hs⟩
    exact ⟨trivial, trivial, hn _ (by simp), hn _ (by simp), hn _ (by simp), ht, ha, hs, trivial⟩
  · rintro ⟨hk, hs, hl, hr, hd, ht, ha, he, -⟩
    exact ⟨hk, hs, hl, hr, hd, ht, ha, he⟩
  · rintro ⟨hk, hs, hl, hr, hd, ht, ha, he⟩
    exact ⟨hk, hs, hl, hr, hd, ht, ha, he, trivial⟩

theorem tells_templateJson {v : Json} :
    Tells (∀ members, v = .object members → Template.IntegersFit members)
      (∃ members, v = .object members ∧ Template.Shaped members)
      (Template.Refuses owner v) (Template.ofJson owner v) := by
  cases v with
  | object members => exact tells_template.congr (by simp) (by simp)
  | _ => exact .refused _ (by simp) (.notTemplate _ (by simp))

end Templates

/-- Reading accepts exactly the values of the shape of a table, if their integers fit, and says what
is wrong with the rest. -/
theorem tells_table (input : Json) :
    Tells (Table.IntegersFit input) (Table.Shaped input) (Table.Refuses input)
      (Table.ofJson input) := by
  cases input with
  | object members =>
    refine Tells.mapM fun entry he => ?_
    have htemplate : Tells _ _ (Table.Refuses (.object members))
        (Template.ofJson entry.1 entry.2) :=
      tells_templateJson.imp fun failure hr => .template members entry.1 entry.2 failure he hr
    exact (htemplate.bind fun t _ => .accepted (entry.1, t) trivial trivial).congr
      (and_iff_left trivial) (and_iff_left trivial)
  | _ => exact .refused _ id (.notTable _ (by simp))

/-! ### Accepted and refused tables -/

theorem Table.integersFit_of_ofJson {input : Json} {table : Table}
    (h : Table.ofJson input = .ok table) : Table.IntegersFit input := by
  have htells := tells_table input
  rw [h] at htells
  cases htells with
  | accepted _ fits _ => exact fits

theorem Table.shaped_of_ofJson {input : Json} {table : Table} (h : Table.ofJson input = .ok table) :
    Table.Shaped input := by
  have htells := tells_table input
  rw [h] at htells
  cases htells with
  | accepted _ _ shaped => exact shaped

/-- A table is refused for a fault that the report names, or for an integer that does not fit. -/
theorem Table.ofJson_eq_error {input : Json} {failure : Failure}
    (h : Table.ofJson input = .error failure) :
    Table.Refuses input failure ∨ failure = .integerTooLarge ∧ ¬Table.IntegersFit input := by
  have htells := tells_table input
  rw [h] at htells
  cases htells with
  | refused _ _ faulty => exact .inl faulty
  | tooLarge unfit => exact .inr ⟨rfl, unfit⟩

theorem Table.Refuses.exists_malformed {input : Json} {failure : Failure}
    (h : Table.Refuses input failure) :
    ∃ offence owner field, failure = .malformed offence owner field := by
  cases h with
  | notTable v alien => exact ⟨_, _, _, rfl⟩
  | template members key v failure entry refuses =>
    cases refuses with
    | notTemplate v alien => exact ⟨_, _, _, rfl⟩
    | atFault template path offence fault => exact ⟨_, _, _, rfl⟩

/-- Reading accepts exactly the values of the shape of a table, and calls the rest malformed. -/
theorem judges_table {input : Json} (hfit : Table.IntegersFit input) :
    Judges (Table.Shaped input) (Table.ofJson input) := by
  have htells := tells_table input
  cases h : Table.ofJson input with
  | ok table => exact .accepted table (Table.shaped_of_ofJson h)
  | error failure =>
    rw [h] at htells
    cases htells with
    | refused _ misshaped faulty =>
      obtain ⟨offence, owner, field, rfl⟩ := faulty.exists_malformed
      exact .refused offence owner field misshaped
    | tooLarge unfit => exact absurd hfit unfit

end EntityTable.Authored
