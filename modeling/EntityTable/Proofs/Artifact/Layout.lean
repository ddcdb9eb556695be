import EntityTable.Proofs.Artifact.Stages
import EntityTable.Proofs.Attributes
import EntityTable.Proofs.Expansion

/-!
The layout of an artifact. In every object the fields without a meaning come first, as they were
authored, and those with one follow in a fixed order as far as they are set. A mirror image keeps
the same aside as the mount it mirrors, and an inherited armament is the one it is a copy of but for
its index.
-/

namespace EntityTable

/-! ### Where authored mounts end up -/

namespace Authored

def standsForPair (mount : Members) : Bool := flagOf (mount.get? "symmetrical")

/-- The angle of a mount in radians. -/
def angleOf (mount : Members) : Binary64 :=
  degreesToRadians ((numberOf (mount.get? "angle")).getD 0)

def sideOf (mount : Members) : Binary64 := (numberOf (mount.get? "positionSide")).getD 0

/-- The objects of a mount in the artifact, of which a pair has two. -/
def copies (object : Binary64 → Binary64 → Members → Entries Json) : Members → List (Entries Json) :=
  paired standsForPair (fun mount => object (angleOf mount) (sideOf mount) mount)
    fun mount => object (angleOf mount).opposite (sideOf mount).opposite mount

def turretObject (angle side : Binary64) (mount : Members) : Entries Json :=
  mount.without Turret.knownKeys ++
    setMembers (turretFields angle side (stringOf (mount.get? "type")))

/-- An own armament, which has no index. -/
def armamentObject (angle side : Binary64) (mount : Members) : Entries Json :=
  mount.without Armament.knownKeys ++ setMembers (armamentFields angle side none)

def sensorObject (mount : Members) : Entries Json :=
  mount.without Sensor.knownKeys ++
    setMembers (sensorFields ((numberOf (mount.get? "range")).map (·.min sensorRangeCeiling)))

theorem turretObject_eq_members (angle side : Binary64) (mount : Members) :
    turretObject angle side mount = EntityTable.Turret.members
      ⟨angle, side, stringOf (mount.get? "type"), mount.without Turret.knownKeys⟩ := by
  rw [EntityTable.Turret.members_eq_append (Entries.lacks_without _ _), turretObject]

theorem armamentObject_eq_members (angle side : Binary64) (mount : Members) :
    armamentObject angle side mount = EntityTable.Armament.members
      ⟨angle, side, none, mount.without Armament.knownKeys⟩ := by
  rw [EntityTable.Armament.members_eq_append (Entries.lacks_without _ _), armamentObject]

theorem Turret.map_members_expand (mount : Members) :
    (meaning mount).expand.map EntityTable.Turret.members = copies turretObject mount := by
  rw [copies, paired, turretObject_eq_members, turretObject_eq_members, expand_eq, paired,
    apply_ite (List.map _)]
  rfl

theorem Armament.map_members_expand (mount : Members) :
    (meaning mount).expand.map EntityTable.Armament.members = copies armamentObject mount := by
  rw [copies, paired, armamentObject_eq_members, armamentObject_eq_members, expand_eq, paired,
    apply_ite (List.map _)]
  rfl

theorem Sensor.members_limit (mount : Members) :
    (meaning mount).limit.members = sensorObject mount :=
  EntityTable.Sensor.members_eq_append (Entries.lacks_without _ _)

/-- Mounts that are expanded one by one are laid out one by one. -/
theorem map_flatMap_expand {α β : Type} {expand : α → List β} {meaning : Members → α}
    {members : β → Entries Json} {objects : Members → List (Entries Json)}
    (h : ∀ mount, (expand (meaning mount)).map members = objects mount) (mounts : List Members) :
    ((mounts.map meaning).flatMap expand).map members = mounts.flatMap objects := by
  rw [List.map_flatMap, List.flatMap_map]
  exact congrArg (List.flatMap · mounts) (funext h)

end Authored

/-! ### Inherited armaments -/

/-- The armament with the index of the turret that carries it, which comes last. -/
def marked (index : Nat) (armament : Entries Json) : Entries Json :=
  armament.without ["turret"] ++ setMembers [("turret", some (.int index))]

/-- All armaments of the template that is named. -/
def armamentsBehind (table : Entries Json) (reference : Option Text) : List (Entries Json) :=
  match reference.bind (Entries.get? · table) with
  | none => []
  | some template => template.mounts .armaments

theorem Armament.members_inherit {a : Armament} (h : a.extra.Lacks Authored.Armament.knownKeys)
    (index : Nat) : (a.inherit index).members = marked index a.members := by
  have hnew : ("turret" : Text) ∉ (a.members.without ["turret"]).keys :=
    Entries.lacks_without ["turret"] a.members "turret" (List.mem_singleton_self _)
  have hput : (a.members.without ["turret"]).put "turret" (.int index) = marked index a.members :=
    Entries.put_of_not_mem hnew _
  rw [← hput, without_turret_members h]
  rfl

namespace Table

variable {table : Table} {key : Text} {template : Template}

theorem armamentsBehind_rendered {target : Text} (h : target ∈ table.keys) :
    armamentsBehind table.rendered (some target) = (table.full target).map Armament.members := by
  obtain ⟨behind, hb⟩ := Entries.exists_get?_of_mem_keys h
  have hfound : table.rendered.get? target =
      some { behind with armaments := table.full target }.toJson := by
    rw [rendered, Entries.get?_mapValues, hb]
    rfl
  have hmounts := (Template.mounts_armaments
    { behind with armaments := table.full target }).mounts_eq
  rw [armamentsBehind, Option.bind_some, hfound]
  exact hmounts

/-- What a turret carries is in the artifact what stands in the template it names. -/
theorem map_members_carries (h : table.Resolvable) (ht : table.get? key = some template)
    {turret : Turret} (hm : turret ∈ template.turrets) (index : Nat) :
    (turret.carries table.full index).map Armament.members =
      (armamentsBehind table.rendered turret.reference).map (marked index) := by
  cases hr : turret.reference with
  | none => simp [Turret.carries, armamentsBehind, hr]
  | some target =>
    have hknown := h.target_known ht hm hr
    obtain ⟨behind, hb⟩ := Entries.exists_get?_of_mem_keys hknown
    have hcarries : turret.carries table.full index =
        (table.full target).map (·.inherit index) := by simp [Turret.carries, hr]
    rw [armamentsBehind_rendered hknown, hcarries, List.map_map, List.map_map]
    exact List.map_congr_left fun a ha => Armament.members_inherit (h.lacks_of_mem_full hb ha) index

/-- The inherited armaments in the artifact, turret by turret. -/
theorem map_members_allCarry (h : table.Resolvable) (ht : table.get? key = some template) :
    (Turret.allCarry table.full template.turrets 0).map Armament.members =
      (template.turrets.map Turret.members).zipIdx.flatMap fun (turret, index) =>
        (armamentsBehind table.rendered (Authored.stringOf (turret.get? "type"))).map
          (marked index) := by
  rw [Turret.allCarry, List.map_flatMap, List.zipIdx_map, List.flatMap_map]
  refine List.flatMap_congr fun entry he => ?_
  have hm : entry.1 ∈ template.turrets :=
    List.mem_of_getElem? (List.mem_zipIdx_iff_getElem?.mp he)
  have hlacks := (h.normalized _ _ (Entries.mem_of_get? ht)).turrets entry.1 hm
  have htype : Authored.stringOf (entry.1.members.get? "type") = entry.1.reference := by
    rw [Turret.get?_type_members hlacks]
    cases entry.1.reference <;> rfl
  rw [map_members_carries h ht hm]
  simp [htype]

end Table

/-! ### No key twice -/

/-- No key is kept aside twice. -/
structure Template.AsideDistinct (t : Template) : Prop where
  turrets : ∀ turret ∈ t.turrets, turret.extra.keys.Nodup
  armaments : ∀ armament ∈ t.armaments, armament.extra.keys.Nodup
  sensors : ∀ sensor ∈ t.sensors, sensor.extra.keys.Nodup
  extra : t.extra.keys.Nodup

namespace Authored

theorem keysDistinct_objectOf {v : Json} (h : v.KeysDistinct) :
    (Json.object (objectOf v)).KeysDistinct := by
  cases v with
  | object members => exact h
  | _ => exact ⟨List.nodup_nil, trivial⟩

theorem nodup_keys_of_mem_objectsOf {template : Members} (h : (Json.object template).KeysDistinct)
    {key : Text} {mount : Members} (hm : mount ∈ objectsOf (template.get? key)) :
    mount.keys.Nodup := by
  obtain ⟨items, item, hget, hitem, rfl⟩ := exists_item_of_mem_objectsOf hm
  have harray : (Json.array items).KeysDistinct :=
    Json.membersDistinct_iff.mp h.2 _ (Entries.mem_of_get? hget)
  exact (keysDistinct_objectOf (Json.itemsDistinct_iff.mp harray item hitem)).keys_nodup

theorem Template.asideDistinct_of_compile {template : Members}
    (h : (Json.object template).KeysDistinct) {owner : Text} {compiled : EntityTable.Template}
    (hc : ((meaning template).compile owner).outcome = .ok compiled) :
    compiled.AsideDistinct := by
  rw [outcome_compile] at hc
  obtain ⟨range, -, hc⟩ := bind_eq_ok_iff.mp hc
  obtain ⟨damage, -, rfl⟩ := map_eq_ok_iff.mp hc
  refine ⟨?_, ?_, ?_, Entries.nodup_keys_without h.keys_nodup _⟩
  · intro turret hm
    obtain ⟨authored, ha, hexpand⟩ := List.mem_flatMap.mp hm
    obtain ⟨mount, hmount, rfl⟩ := List.mem_map.mp ha
    rw [Turret.extra_of_mem_expand hexpand]
    exact Entries.nodup_keys_without (nodup_keys_of_mem_objectsOf h hmount) _
  · intro armament hm
    obtain ⟨authored, ha, hexpand⟩ := List.mem_flatMap.mp hm
    obtain ⟨mount, hmount, rfl⟩ := List.mem_map.mp ha
    rw [(Armament.extra_of_mem_expand hexpand).1]
    exact Entries.nodup_keys_without (nodup_keys_of_mem_objectsOf h hmount) _
  · intro sensor hm
    obtain ⟨authored, ha, rfl⟩ := List.mem_map.mp hm
    obtain ⟨mount, hmount, rfl⟩ := List.mem_map.mp ha
    exact Entries.nodup_keys_without (nodup_keys_of_mem_objectsOf h hmount) _

end Authored

theorem Stages.asideDistinct {members : Entries Json} {normalized : Table}
    (hs : Stages members normalized) (hd : (Json.object members).KeysDistinct) :
    ∀ entry ∈ normalized, entry.2.AsideDistinct := by
  intro entry he
  obtain ⟨source, hm, -, hc⟩ := hs.exists_source he
  obtain ⟨⟨key, v⟩, hv, rfl⟩ := List.mem_map.mp hm
  have hdistinct : v.KeysDistinct := Json.membersDistinct_iff.mp hd.2 (key, v) hv
  exact Authored.Template.asideDistinct_of_compile (Authored.keysDistinct_objectOf hdistinct) hc

theorem Table.nodup_keys_of_mem_full {table : Table} (h : ∀ entry ∈ table, entry.2.AsideDistinct)
    {key : Text} {armaments : List Armament} (hc : table.collect [] key = .ok armaments)
    {a : Armament} (ha : a ∈ table.full key) : a.members.keys.Nodup := by
  obtain ⟨source, behind, hb, own, hown, hcopy⟩ := mem_full hc ha
  have hextra := (h _ (Entries.mem_of_get? hb)).armaments own hown
  rcases hcopy with rfl | ⟨i, rfl⟩
  · exact Armament.nodup_keys_members hextra
  · exact Armament.nodup_keys_members hextra

/-! ### The artifact -/

open Authored (numberOf stringOf objectsOf)

/-- How the object of a template follows from the authored one and the rest of the artifact. -/
structure LaidOut (table : Entries Json) (owner : Text) (authored compiled : Entries Json)
    (turrets armaments sensors : List (Entries Json)) : Prop where
  /-- Range and damage are as they are derived; what else has a meaning is as it was authored. -/
  fields : ∃ range damage, (Authored.Template.meaning authored).deriveRange owner = .ok range ∧
    ((Authored.Template.meaning authored).deriveDamage owner).outcome = .ok damage ∧
    compiled = authored.without Authored.Template.knownKeys ++
      setMembers (templateFields (stringOf (authored.get? "type"))
        (stringOf (authored.get? "subtype")) (numberOf (authored.get? "length")) range damage
        turrets armaments sensors)
  turrets_eq : turrets =
    (objectsOf (authored.get? "turrets")).flatMap (Authored.copies Authored.turretObject)
  /-- Behind the own armaments stand those of the templates that turrets name. -/
  armaments_eq : armaments =
    (objectsOf (authored.get? "armaments")).flatMap (Authored.copies Authored.armamentObject) ++
      turrets.zipIdx.flatMap fun (turret, index) =>
        (armamentsBehind table (stringOf (turret.get? "type"))).map (marked index)
  sensors_eq : sensors = (objectsOf (authored.get? "sensors")).map Authored.sensorObject
  distinct : compiled.keys.Nodup ∧ ∀ mount ∈ turrets ++ armaments ++ sensors, mount.keys.Nodup

namespace Stages

variable {members : Entries Json} {normalized : Table}

theorem resolvable (hs : Stages members normalized) : normalized.Resolvable :=
  ⟨(Authored.Table.normalized_of_compileEach hs.read hs.compiled).2, hs.collected⟩

theorem exists_compiled_of_mem (hs : Stages members normalized)
    (hd : (Json.object members).KeysDistinct) {key : Text} {v : Json} (hv : (key, v) ∈ members) :
    ∃ authored compiled, v = .object authored ∧ normalized.get? key = some compiled ∧
      ((Authored.Template.meaning authored).compile key).outcome = .ok compiled := by
  obtain ⟨authored, heq, -⟩ := Authored.Table.shaped_of_ofJson hs.read (key, v) hv
  obtain rfl : v = .object authored := heq
  have hfound := hs.get? key
  rw [Entries.get?_of_mem hd.keys_nodup hv] at hfound
  generalize normalized.get? key = found at hfound
  cases hfound with
  | some hc => exact ⟨authored, _, rfl, rfl, hc⟩

/-- Every template of the artifact has an authored one under its key. -/
theorem exists_authored_of_mem (hs : Stages members normalized)
    (hd : (Json.object members).KeysDistinct) {key : Text} {template : Json}
    (ht : (key, template) ∈ normalized.rendered) :
    ∃ authored compiled, (key, .object authored) ∈ members ∧
      normalized.get? key = some compiled ∧
      ((Authored.Template.meaning authored).compile key).outcome = .ok compiled ∧
      template = { compiled with armaments := normalized.full key }.toJson := by
  obtain ⟨⟨key', compiled⟩, he, heq⟩ := List.mem_map.mp ht
  obtain ⟨rfl, rfl⟩ := Prod.mk.inj heq
  have hnormalized : normalized.keys.Nodup := hs.keys_eq ▸ hd.keys_nodup
  have hfound := Entries.get?_of_mem hnormalized he
  have hkey : key' ∈ Entries.keys members := hs.keys_eq ▸ List.mem_map_of_mem (f := Prod.fst) he
  obtain ⟨v, hv⟩ := Entries.exists_get?_of_mem_keys hkey
  have hv := Entries.mem_of_get? hv
  obtain ⟨authored, same, rfl, hsame, hc⟩ := hs.exists_compiled_of_mem hd hv
  obtain rfl : compiled = same := Option.some.inj (hfound.symm.trans hsame)
  exact ⟨authored, compiled, hv, hfound, hc, rfl⟩

theorem laidOut (hs : Stages members normalized) (hd : (Json.object members).KeysDistinct)
    {key : Text} {authored : Entries Json} {compiled : Template}
    (ht : normalized.get? key = some compiled)
    (hc : ((Authored.Template.meaning authored).compile key).outcome = .ok compiled) :
    LaidOut normalized.rendered key authored
      { compiled with armaments := normalized.full key }.members
      (compiled.turrets.map Turret.members) ((normalized.full key).map Armament.members)
      (compiled.sensors.map Sensor.members) := by
  -- what is known of the template as an entry of the table comes first; below it is taken apart
  have he := Entries.mem_of_get? ht
  have hdistinct := hs.asideDistinct hd
  obtain ⟨armaments, hcollect⟩ := hs.collected _ he
  have hinherited := Table.map_members_allCarry hs.resolvable ht
  have hfull := hs.resolvable.full_eq ht
  have haside := hdistinct _ he
  rw [Authored.Template.outcome_compile] at hc
  obtain ⟨range, hrange, hc⟩ := bind_eq_ok_iff.mp hc
  obtain ⟨damage, hdamage, rfl⟩ := map_eq_ok_iff.mp hc
  constructor
  case fields =>
    exact ⟨range, damage, hrange, hdamage,
      Template.members_eq_append (Entries.lacks_without _ authored)⟩
  case turrets_eq => exact Authored.map_flatMap_expand Authored.Turret.map_members_expand _
  case armaments_eq =>
    rw [hfull, List.map_append, hinherited]
    congr 1
    exact Authored.map_flatMap_expand Authored.Armament.map_members_expand _
  case sensors_eq =>
    rw [List.map_map, Authored.Template.meaning, List.map_map]
    exact List.map_congr_left fun mount _ => Authored.Sensor.members_limit mount
  case distinct =>
    refine ⟨Template.nodup_keys_members haside.extra, ?_⟩
    intro mount hm
    rcases List.mem_append.mp hm with hm | hm
    · rcases List.mem_append.mp hm with hm | hm
      · obtain ⟨turret, hturret, rfl⟩ := List.mem_map.mp hm
        exact Turret.nodup_keys_members (haside.turrets turret hturret)
      · obtain ⟨armament, harmament, rfl⟩ := List.mem_map.mp hm
        exact Table.nodup_keys_of_mem_full hdistinct hcollect harmament
    · obtain ⟨sensor, hsensor, rfl⟩ := List.mem_map.mp hm
      exact Sensor.nodup_keys_members (haside.sensors sensor hsensor)

end Stages

/-- Every template of the artifact is laid out from the authored one under its key. -/
theorem compile_layout (input output : Json) (hd : input.KeysDistinct)
    (h : (compile input).outcome = .ok output) :
    ∃ members table : Entries Json, input = .object members ∧ output = .object table ∧
      table.keys = members.keys ∧ ∀ key v, (key, v) ∈ members →
        ∃ authored compiled turrets armaments sensors, v = .object authored ∧
          (key, .object compiled) ∈ table ∧
          LaidOut table key authored compiled turrets armaments sensors := by
  obtain ⟨members, normalized, rfl, hs, rfl⟩ := compile_eq_ok_iff.mp h
  have hkeys : normalized.rendered.keys = Entries.keys members :=
    (Entries.keys_mapValues _ normalized).trans hs.keys_eq
  refine ⟨members, normalized.rendered, rfl, rfl, hkeys, ?_⟩
  intro key v hv
  obtain ⟨authored, compiled, rfl, ht, hc⟩ := hs.exists_compiled_of_mem hd hv
  have hrendered : (key, { compiled with armaments := normalized.full key }.toJson) ∈
      normalized.rendered := List.mem_map_of_mem (Entries.mem_of_get? ht)
  exact ⟨authored, _, _, _, _, rfl, hrendered, hs.laidOut hd ht hc⟩

/-- A pair of guns, with fields kept aside that have a meaning elsewhere or look unset. -/
def bowChaser : Entries Json :=
  [("hold", .object [("turrets", .array [.int 1, .null])]), ("damage", .null), ("turret", .null),
    ("length", .int 40), ("armaments", .array [.object [("type", .int 3), ("angle", .int 90)]]),
    ("turrets", .array [.object [("range", .null), ("type", .string "gun"),
      ("symmetrical", .bool true)]])]

/-- A ship with such guns, and the gun. -/
def chase : Json :=
  .object [("ship", .object bowChaser),
    ("gun", .object [("armaments", .array [.object [("reload", .array [.int 2])]])])]

theorem compile_chase : chase.KeysDistinct ∧ ∃ output, (compile chase).outcome = .ok output ∧
    ∃ table compiled turrets armaments sensors, output = .object table ∧
      (("ship" : Text), Json.object compiled) ∈ table ∧
      LaidOut table "ship" bowChaser compiled turrets armaments sensors := by
  have hd : chase.KeysDistinct := by
    simp only [chase, bowChaser, Json.KeysDistinct, Json.MembersDistinct, Json.ItemsDistinct,
      Entries.keys, and_true]
    decide
  obtain ⟨output, h⟩ : ∃ output, (compile chase).outcome = .ok output :=
    exists_eq_ok_of_isSome (by decide +kernel)
  obtain ⟨members, table, heq, rfl, -, hall⟩ := compile_layout chase output hd h
  obtain rfl := Json.object.inj heq
  obtain ⟨authored, compiled, turrets, armaments, sensors, hship, hmem, hlaid⟩ :=
    hall "ship" (.object bowChaser) (List.mem_cons_self ..)
  obtain rfl := Json.object.inj hship
  exact ⟨hd, _, h, table, compiled, turrets, armaments, sensors, rfl, hmem, hlaid⟩

end EntityTable
