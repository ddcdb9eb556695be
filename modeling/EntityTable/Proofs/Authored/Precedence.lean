import EntityTable.Proofs.Authored.Meaning

/-!
Which of several faults is reported. All faults of a table are listed in the order in which they are
come upon: template by template the attributes first, then its lists one after the other, each as a
whole, then its entries, then the attributes of the entries. Reading fails with the first of them.
-/

namespace EntityTable.Authored

/-! ### All faults in order -/

instance (kind : Kind) (v : Option Json) : Decidable (kind.Admits v) :=
  match kind with
  | .number => inferInstanceAs (Decidable (IsNumber v))
  | .string => inferInstanceAs (Decidable (IsString v))
  | .flag => inferInstanceAs (Decidable (IsFlag v))
  | .nothing => inferInstanceAs (Decidable (IsUnset v))

/-- At most one: a value that is not of the kind. -/
def Site.faults (site : Site) (kind : Kind) : Option Json → List Failure
  | none => []
  | some v =>
    if kind.Admits (some v) then []
    else [.malformed (kind.offence v) (some site.owner) (some site.field)]

def attributeFaults (attributes : Attributes) (site : Text → Site) (members : Members) :
    List Failure :=
  attributes.flatMap fun (key, kind) => (site key).faults kind (members.get? key)

def entryFaults (owner : Text) (list : MountList) (index : Nat) : Json → List Failure
  | .object _ => []
  | v => [.malformed (.notObject v.typeName) (some owner) (some (.mount list index))]

/-- A list that is none, or else the entries that are no objects. -/
def containerFaults (owner : Text) (list : MountList) : Option Json → List Failure
  | none | some .null => []
  | some (.array items) => items.zipIdx.flatMap fun (item, index) => entryFaults owner list index item
  | some v => [.malformed (.notList v.typeName) (some owner) (some (.direct list.key))]

def mountFaults (owner : Text) (list : MountList) (index : Nat) (mount : Members) : List Failure :=
  attributeFaults (mountAttributes list) (fun key => ⟨owner, .mountAttribute list index key⟩) mount

def listFaults (owner : Text) (template : Members) (list : MountList) : List Failure :=
  containerFaults owner list (template.get? list.key) ++
    (objectsOf (template.get? list.key)).zipIdx.flatMap fun (mount, index) =>
      mountFaults owner list index mount

def Template.faults (owner : Text) : Json → List Failure
  | .object template =>
    attributeFaults templateAttributes (fun key => ⟨owner, .direct key⟩) template ++
      [.turrets, .armaments, .sensors].flatMap (listFaults owner template)
  | v => [.malformed (.notTemplate v.typeName) (some owner) none]

def Table.faults : Json → List Failure
  | .object members => members.flatMap fun (key, v) => Template.faults key v
  | v => [.malformed (.notTable v.typeName) none none]

/-! ### The listed faults are the faults -/

section Listed

variable {owner : Text} {template : Members} {failure : Failure}

theorem mem_attributeFaults_iff {attributes : Attributes} {site : Text → Site}
    {members : Members} : failure ∈ attributeFaults attributes site members ↔
      ∃ key kind v, Misfits attributes members key kind v ∧
        failure = .malformed (kind.offence v) (some (site key).owner) (some (site key).field) := by
  rw [attributeFaults, List.mem_flatMap]
  constructor
  · rintro ⟨⟨key, kind⟩, hk, hfault⟩
    replace hfault : failure ∈ (site key).faults kind (members.get? key) := hfault
    cases hv : members.get? key with
    | none =>
      rw [hv] at hfault
      cases hfault
    | some v =>
      rw [hv, Site.faults] at hfault
      split at hfault
      · cases hfault
      · next halien =>
        exact ⟨key, kind, v, ⟨hk, hv, halien⟩, List.mem_singleton.mp hfault⟩
  · rintro ⟨key, kind, v, ⟨hk, hv, halien⟩, rfl⟩
    refine ⟨(key, kind), hk, ?_⟩
    show _ ∈ (site key).faults kind (members.get? key)
    rw [hv, Site.faults, if_neg halien]
    exact List.mem_singleton_self _

theorem mem_entryFaults_iff {list : MountList} {index : Nat} {item : Json} :
    failure ∈ entryFaults owner list index item ↔ (∀ object, item ≠ .object object) ∧
      failure = .malformed (.notObject item.typeName) (some owner) (some (.mount list index)) := by
  cases item <;> simp [entryFaults]

/-- A list is at fault as a whole or in an entry that is no object. -/
theorem mem_containerFaults_iff {list : MountList} {v : Option Json} :
    failure ∈ containerFaults owner list v ↔
      (∃ found, v = some found ∧ found ≠ .null ∧ (∀ items, found ≠ .array items) ∧
        failure = .malformed (.notList found.typeName) (some owner) (some (.direct list.key))) ∨
      ∃ items index item, v = some (.array items) ∧ items[index]? = some item ∧
        failure ∈ entryFaults owner list index item := by
  unfold containerFaults
  split
  · simp
  · simp
  · next items =>
    rw [List.mem_flatMap]
    constructor
    · rintro ⟨⟨item, index⟩, hlisted, hfault⟩
      exact .inr ⟨items, index, item, rfl, List.mem_zipIdx_iff_getElem?.mp hlisted, hfault⟩
    · rintro (⟨found, heq, -, halien, -⟩ | ⟨listed, index, item, heq, hlisted, hfault⟩)
      · exact absurd (Option.some.inj heq).symm (halien items)
      · obtain rfl := Json.array.inj (Option.some.inj heq)
        exact ⟨(item, index), List.mem_zipIdx_iff_getElem?.mpr hlisted, hfault⟩
  · next found hnull harray =>
    rw [List.mem_singleton]
    constructor
    · intro h
      refine .inl ⟨found, rfl, ?_, ?_, h⟩
      · rintro rfl
        exact hnull rfl
      · rintro items rfl
        exact harray items rfl
    · rintro (⟨found', heq, -, -, h⟩ | ⟨items, index, item, heq, -⟩)
      · rw [h, Option.some.inj heq]
      · exact absurd (Option.some.inj heq) (fun h => harray items (by rw [h]))

/-- Only an object has something under a key. -/
theorem exists_item_of_objectsOf {v : Option Json} {index : Nat} {object : Members} {key : Text}
    {found : Json} (h : (objectsOf v)[index]? = some object) (hk : object.get? key = some found) :
    ∃ items, v = some (.array items) ∧ items[index]? = some (.object object) := by
  obtain ⟨items, item, hv, hitem, rfl⟩ := getElem?_objectsOf_eq_some_iff.mp h
  cases item with
  | object members => exact ⟨items, hv, hitem⟩
  | _ => cases hk

theorem atFault_of_mem_listFaults {list : MountList}
    (h : failure ∈ listFaults owner template list) :
    ∃ path offence, Template.AtFault template path offence ∧
      failure = .malformed offence (some owner) (some path) := by
  rcases List.mem_append.mp h with hcontainer | hattribute
  · rcases mem_containerFaults_iff.mp hcontainer with
      ⟨found, hv, hset, halien, rfl⟩ | ⟨items, index, item, hv, hlisted, hentry⟩
    · exact ⟨_, _, .list list found hv hset halien, rfl⟩
    · obtain ⟨halien, rfl⟩ := mem_entryFaults_iff.mp hentry
      exact ⟨_, _, .mount list items index item hv hlisted halien, rfl⟩
  · obtain ⟨⟨object, index⟩, hobject, hfault⟩ := List.mem_flatMap.mp hattribute
    obtain ⟨key, kind, v, hmisfits, rfl⟩ := mem_attributeFaults_iff.mp hfault
    obtain ⟨items, hv, hlisted⟩ :=
      exists_item_of_objectsOf (List.mem_zipIdx_iff_getElem?.mp hobject) hmisfits.found
    exact ⟨_, _, .mountAttribute list items index object key kind v hv hlisted hmisfits, rfl⟩

theorem Template.mem_faults_iff {v : Json} :
    failure ∈ Template.faults owner v ↔ Template.Refuses owner v failure := by
  constructor
  · intro h
    cases v with
    | object template =>
      rcases List.mem_append.mp h with hattribute | hlist
      · obtain ⟨key, kind, v, hmisfits, rfl⟩ := mem_attributeFaults_iff.mp hattribute
        exact .atFault template _ _ (.direct key kind v hmisfits)
      · obtain ⟨list, -, hmount⟩ := List.mem_flatMap.mp hlist
        obtain ⟨path, offence, hfault, rfl⟩ := atFault_of_mem_listFaults hmount
        exact .atFault template path offence hfault
    | _ =>
      obtain rfl := List.mem_singleton.mp h
      exact .notTemplate _ (by simp)
  · intro h
    cases h with
    | notTemplate v alien => cases v <;> simp_all [Template.faults]
    | atFault template path offence fault =>
      have hlist (list : MountList)
          (hmount : .malformed offence (some owner) (some path) ∈ listFaults owner template list) :
          .malformed offence (some owner) (some path) ∈ Template.faults owner (.object template) :=
        List.mem_append_right _ (List.mem_flatMap.mpr ⟨list, by cases list <;> simp, hmount⟩)
      cases fault with
      | direct key kind v misfits =>
        exact List.mem_append_left _ (mem_attributeFaults_iff.mpr ⟨key, kind, v, misfits, rfl⟩)
      | list list v found set alien =>
        exact hlist list (List.mem_append_left _
          (mem_containerFaults_iff.mpr (.inl ⟨v, found, set, alien, rfl⟩)))
      | mount list items index item found listed alien =>
        exact hlist list (List.mem_append_left _ (mem_containerFaults_iff.mpr
          (.inr ⟨items, index, item, found, listed, mem_entryFaults_iff.mpr ⟨alien, rfl⟩⟩)))
      | mountAttribute list items index object key kind v found listed misfits =>
        refine hlist list (List.mem_append_right _ (List.mem_flatMap.mpr ⟨(object, index), ?_,
          mem_attributeFaults_iff.mpr ⟨key, kind, v, misfits, rfl⟩⟩))
        rw [found]
        exact List.mem_zipIdx_iff_getElem?.mpr
          (getElem?_objectsOf_eq_some_iff.mpr ⟨items, _, rfl, listed, rfl⟩)

theorem Table.mem_faults_iff {input : Json} :
    failure ∈ Table.faults input ↔ Table.Refuses input failure := by
  constructor
  · intro h
    cases input with
    | object members =>
      obtain ⟨⟨key, v⟩, hentry, hfault⟩ := List.mem_flatMap.mp h
      exact .template members key v failure hentry (Template.mem_faults_iff.mp hfault)
    | _ =>
      obtain rfl := List.mem_singleton.mp h
      exact .notTable _ (by simp)
  · intro h
    cases h with
    | notTable input alien => cases input <;> simp_all [Table.faults]
    | template members key v failure entry refuses =>
      exact List.mem_flatMap.mpr ⟨(key, v), entry, Template.mem_faults_iff.mpr refuses⟩

end Listed

/-! ### Reading reports the first fault -/

/-- The outcome of a reading that comes upon these faults, in this order. -/
def Reports {α : Type} (faults : List Failure) : Except Failure α → Prop
  | .ok _ => faults = []
  | .error failure => faults.head? = some failure

namespace Reports

variable {α β : Type} {faults faults' : List Failure}

theorem done (a : α) : Reports [] (.ok a) := rfl

theorem bind {x : Except Failure α} {f : α → Except Failure β} (hx : Reports faults x)
    (hf : ∀ a, x = .ok a → Reports faults' (f a)) : Reports (faults ++ faults') (x >>= f) := by
  cases x with
  | ok a =>
    obtain rfl : faults = [] := hx
    exact hf a rfl
  | error failure =>
    show (faults ++ faults').head? = some failure
    rw [List.head?_append, (hx : faults.head? = some failure)]
    rfl

theorem mapM {f : α → Except Failure β} {faults : α → List Failure} {xs : List α}
    (h : ∀ x ∈ xs, Reports (faults x) (f x)) : Reports (xs.flatMap faults) (xs.mapM f) := by
  induction xs with
  | nil => exact done []
  | cons x xs ih =>
    obtain ⟨hfirst, hrest⟩ := List.forall_mem_cons.mp h
    rw [List.mapM_cons, List.flatMap_cons]
    refine hfirst.bind fun y _ => ?_
    have hlist := (ih hrest).bind fun ys _ => done (y :: ys)
    rwa [List.append_nil] at hlist

/-- Success and failure, as they follow from the faults. -/
theorem iff {x : Except Failure α} (h : Reports faults x) :
    ((∃ a, x = .ok a) ↔ faults = []) ∧ ∀ failure, x = .error failure ↔
      faults.head? = some failure := by
  cases x with
  | ok a =>
    obtain rfl : faults = [] := h
    simp
  | error failure =>
    replace h : faults.head? = some failure := h
    simp only [h, Option.some.injEq, Except.error.injEq, implies_true, and_true]
    simp only [reduceCtorEq, exists_false, false_iff]
    rintro rfl
    cases h

end Reports

section Fields

variable {site : Site} {kind : Kind} {v : Option Json}

theorem faults_of_admits (h : kind.Admits v) : site.faults kind v = [] := by
  cases v with
  | none => rfl
  | some v => rw [Site.faults, if_pos h]

theorem blames_faults : Blames (· ∈ site.faults kind v) site kind v := by
  rintro w rfl halien
  rw [Site.faults, if_neg halien]
  exact List.mem_singleton_self _

/-- A field has one fault at most, so that the report of it is the first. -/
theorem Tells.reports {α : Type} {fits : Prop} {x : Except Failure α}
    (h : Tells fits (kind.Admits v) (· ∈ site.faults kind v) x) (hfits : fits) :
    Reports (site.faults kind v) x := by
  cases h with
  | accepted a _ shaped => exact faults_of_admits shaped
  | refused failure _ faulty =>
    show (site.faults kind v).head? = some failure
    revert faulty
    cases v with
    | none => simp [Site.faults]
    | some v =>
      rw [Site.faults]
      split <;> simp [eq_comm]
  | tooLarge unfit => exact absurd hfits unfit

theorem reports_number? (hfit : IntegerFits v) :
    Reports (site.faults .number v) (number? site v) :=
  (tells_number? blames_faults).reports hfit

theorem reports_string? : Reports (site.faults .string v) (string? site v) :=
  (tells_string? blames_faults).reports trivial

theorem reports_flag : Reports (site.faults .flag v) (flag site v) :=
  (tells_flag blames_faults).reports trivial

theorem reports_refuseTurret :
    Reports (site.faults .nothing v) (Armament.refuseTurret site v) :=
  (tells_refuseTurret blames_faults).reports trivial

end Fields

section Mounts

variable {owner : Text} {index : Nat} {members template : Members}

theorem reports_turret (hfit : IntegersFit ["angle", "positionSide"] members) :
    Reports (mountFaults owner .turrets index members) (Turret.ofMembers owner index members) :=
  (reports_number? (hfit "angle" (by simp))).bind fun angle _ =>
  (reports_number? (hfit "positionSide" (by simp))).bind fun side _ =>
  reports_flag.bind fun symmetrical _ =>
  reports_string?.bind fun reference _ => .done _

theorem reports_armament (hfit : IntegersFit ["angle", "positionSide"] members) :
    Reports (mountFaults owner .armaments index members)
      (Armament.ofMembers owner index members) :=
  reports_refuseTurret.bind fun _ _ =>
  (reports_number? (hfit "angle" (by simp))).bind fun angle _ =>
  (reports_number? (hfit "positionSide" (by simp))).bind fun side _ =>
  reports_flag.bind fun symmetrical _ => .done _

theorem reports_sensor (hfit : IntegersFit ["range"] members) :
    Reports (mountFaults owner .sensors index members) (Sensor.ofMembers owner index members) :=
  (reports_number? (hfit "range" (by simp))).bind fun range _ => .done _

theorem reports_mountObject {list : MountList} {item : Json} :
    Reports (entryFaults owner list index item) (mountObject owner list index item) := by
  cases item <;> rfl

theorem reports_mountObjects {list : MountList} :
    Reports (containerFaults owner list (template.get? list.key))
      (mountObjects owner template list) := by
  unfold mountObjects
  generalize template.get? list.key = v
  match v with
  | none | some .null => exact .done []
  | some (.array items) => exact .mapM fun entry _ => reports_mountObject
  | some (.bool _) | some (.int _) | some (.float _) | some (.string _) | some (.object _) => rfl

theorem integersFit_of_mem_objectsOf {keys : List Text} {v : Option Json} {object : Members}
    (h : MountIntegersFit keys v) (hm : object ∈ objectsOf v) : IntegersFit keys object := by
  obtain ⟨items, item, rfl, hitem, rfl⟩ := exists_item_of_mem_objectsOf hm
  cases item with
  | object members => exact h _ hitem members rfl
  | _ => exact fun _ _ => trivial

/-- The entries of a list are read once the list is known to be one of objects. -/
theorem reports_mounts {α : Type} {list : MountList} {keys : List Text}
    {ofMembers : Text → Nat → Members → Except Failure α}
    (hfit : MountIntegersFit keys (template.get? list.key))
    (h : ∀ index object, IntegersFit keys object →
      Reports (mountFaults owner list index object) (ofMembers owner index object)) :
    Reports (listFaults owner template list) (mounts owner template list ofMembers) := by
  refine reports_mountObjects.bind fun objects hobjects => ?_
  obtain rfl := mountObjects_eq_objectsOf hobjects
  refine .mapM fun entry hentry => h entry.2 entry.1 ?_
  exact integersFit_of_mem_objectsOf hfit
    (List.mem_of_getElem? (List.mem_zipIdx_iff_getElem?.mp hentry))

theorem reports_template (hfit : Template.IntegersFit template) :
    Reports (Template.faults owner (.object template)) (Template.ofMembers owner template) := by
  have hnumber (key : Text) (hk : key ∈ (["length", "range", "damage"] : List Text)) :
      Reports (Site.faults ⟨owner, .direct key⟩ .number (template.get? key))
        (number? ⟨owner, .direct key⟩ (template.get? key)) :=
    reports_number? (hfit.attributes key hk)
  -- the faults come in the order of the binds, an empty list behind the last of them
  have hread : Reports _ (Template.ofMembers owner template) :=
    reports_string?.bind fun kind _ =>
    reports_string?.bind fun subtype _ =>
    (hnumber "length" (by simp)).bind fun length _ =>
    (hnumber "range" (by simp)).bind fun range _ =>
    (hnumber "damage" (by simp)).bind fun damage _ =>
    (reports_mounts hfit.turrets fun _ _ => reports_turret).bind fun turrets _ =>
    (reports_mounts hfit.armaments fun _ _ => reports_armament).bind fun armaments _ =>
    (reports_mounts hfit.sensors fun _ _ => reports_sensor).bind fun sensors _ => .done _
  simpa [Template.faults, attributeFaults, templateAttributes] using hread

theorem reports_templateJson {v : Json}
    (hfit : ∀ members, v = .object members → Template.IntegersFit members) :
    Reports (Template.faults owner v) (Template.ofJson owner v) := by
  cases v with
  | object members => exact reports_template (hfit members rfl)
  | _ => rfl

end Mounts

theorem reports_table {input : Json} (hfit : Table.IntegersFit input) :
    Reports (Table.faults input) (Table.ofJson input) := by
  cases input with
  | object members =>
    refine .mapM fun entry hentry => ?_
    have hread := (@reports_templateJson entry.1 entry.2 (hfit entry hentry)).bind
      fun t _ => Reports.done (entry.1, t)
    rwa [List.append_nil] at hread
  | _ => rfl

/-- Reading accepts exactly the values of the shape of a table. The others it refuses for the first
of their faults, and these are what `Refuses` says. -/
theorem Table.ofJson_reports_first (input : Json) (hfit : Table.IntegersFit input) :
    ((∃ table, Table.ofJson input = .ok table) ↔ Table.Shaped input) ∧
      (∀ failure, Table.ofJson input = .error failure ↔
        (Table.faults input).head? = some failure) ∧
      ∀ failure, failure ∈ Table.faults input ↔ Table.Refuses input failure := by
  refine ⟨⟨?_, ?_⟩, (reports_table hfit).iff.2, fun failure => Table.mem_faults_iff⟩
  · rintro ⟨table, h⟩
    exact Table.shaped_of_ofJson h
  · intro hshape
    cases input with
    | object members => exact ⟨_, Table.ofJson_of_shaped hfit hshape⟩
    | _ => cases hshape

/-- A sound hull before a ship with one fault in its sensors and four in its turrets, and a boat that
is a number. -/
def ramshackle : Json :=
  .object [("hull", .object [("length", .int 9), ("range", .null)]),
    ("ship", .object [("sensors", .bool true), ("turrets", .array [
      .object [("symmetrical", .int 1), ("angle", .bool true)], .int 3, .string "gun"])]),
    ("boat", .int 7)]

/-- The entry that is no object comes before the angle. -/
theorem ofJson_ramshackle : Table.IntegersFit ramshackle ∧
    Table.ofJson ramshackle = .error (.malformed (.notObject "int") (some "ship")
      (some (.mount .turrets 1))) ∧ (Table.faults ramshackle).length = 6 := by
  have hfit : Table.IntegersFit ramshackle := by decide +kernel
  refine ⟨hfit, ((Table.ofJson_reports_first ramshackle hfit).2.1 _).mpr ?_, ?_⟩
  · with_unfolding_all rfl
  · decide +kernel

end EntityTable.Authored
