import EntityTable.Proofs.Authored.Meaning
import EntityTable.Template

/-!
Rendered objects. The interpreted keys are found as they were rendered, as long as the fields kept
aside use none of them, and they stand behind these in a fixed order, as far as they are set.
-/

namespace EntityTable

theorem get?_putSome {α : Type} (key asked : Text) (toJson : α → Json) (value : Option α)
    (members : Entries Json) :
    Entries.get? asked (putSome key toJson value members) =
      if key = asked then (value.map toJson).or (members.get? asked) else members.get? asked := by
  cases value with
  | none => simp [putSome]
  | some x => simp [putSome, Entries.get?_put]

theorem mem_keys_putSome {α : Type} {key asked : Text} {toJson : α → Json} {value : Option α}
    {members : Entries Json} (h : asked ∈ Entries.keys (putSome key toJson value members)) :
    asked = key ∨ asked ∈ members.keys := by
  cases value with
  | none => exact .inr h
  | some x => exact Entries.mem_keys_put.mp h

/-- A mount's members besides its last one: those kept aside, its angle and its side. -/
theorem not_mem_keys_mount {extra : Entries Json} {angle side : Json} {key : Text}
    (hangle : key ≠ "angle") (hside : key ≠ "positionSide") (h : key ∉ extra.keys) :
    key ∉ Entries.keys ((extra.put "angle" angle).put "positionSide" side) := by
  rw [Entries.mem_keys_put, Entries.mem_keys_put]
  intro hm
  rcases hm with heq | heq | hm
  · exact hside heq
  · exact hangle heq
  · exact h hm

namespace Turret

variable {t : Turret}

theorem get?_type_members (h : t.extra.Lacks Authored.Turret.knownKeys) :
    t.members.get? "type" = t.reference.map .string := by
  have hnone : t.extra.get? "type" = none := Entries.get?_eq_none_iff.mpr (h "type" (by decide))
  have hangle : ("angle" : Text) ≠ "type" := by decide
  have hside : ("positionSide" : Text) ≠ "type" := by decide
  simp [members, get?_putSome, hnone, hangle, hside]

theorem get?_angle_members : t.members.get? "angle" = some (.float t.angle) := by
  simp +decide [members, get?_putSome]

theorem symmetrical_not_mem_members (h : t.extra.Lacks Authored.Turret.knownKeys) :
    ("symmetrical" : Text) ∉ t.members.keys := by
  intro hm
  rcases mem_keys_putSome hm with heq | hm
  · exact absurd heq (by decide)
  · exact not_mem_keys_mount (by decide) (by decide) (h "symmetrical" (by decide)) hm

end Turret

namespace Armament

variable {a : Armament}

theorem get?_turret_members (h : a.extra.Lacks Authored.Armament.knownKeys) :
    a.members.get? "turret" = a.turret.map .int := by
  have hnone : a.extra.get? "turret" = none :=
    Entries.get?_eq_none_iff.mpr (h "turret" (by decide))
  have hangle : ("angle" : Text) ≠ "turret" := by decide
  have hside : ("positionSide" : Text) ≠ "turret" := by decide
  simp [members, get?_putSome, hnone, hangle, hside]

/-- Without its index, an armament reads the same whichever turret carries it. -/
theorem without_turret_members (h : a.extra.Lacks Authored.Armament.knownKeys) :
    a.members.without ["turret"] = (a.extra.put "angle" (.float a.angle)).put "positionSide"
      (.float a.side) := by
  have hnone : ("turret" : Text) ∉
      ((a.extra.put "angle" (.float a.angle)).put "positionSide" (.float a.side)).keys :=
    not_mem_keys_mount (by decide) (by decide) (h "turret" (by decide))
  cases ht : a.turret with
  | none => simpa [members, putSome, ht] using Entries.without_of_not_mem hnone
  | some i =>
    simpa [members, putSome, ht, Entries.without_put] using Entries.without_of_not_mem hnone

theorem get?_angle_members : a.members.get? "angle" = some (.float a.angle) := by
  simp +decide [members, get?_putSome]

theorem symmetrical_not_mem_members (h : a.extra.Lacks Authored.Armament.knownKeys) :
    ("symmetrical" : Text) ∉ a.members.keys := by
  intro hm
  rcases mem_keys_putSome hm with heq | hm
  · exact absurd heq (by decide)
  · exact not_mem_keys_mount (by decide) (by decide) (h "symmetrical" (by decide)) hm

end Armament

/-- The objects that a template's object lists under the key of its turrets or armaments. -/
def Json.Mounts (template : Json) (list : MountList) (mounts : List (Entries Json)) : Prop :=
  ∃ members, template = .object members ∧
    Entries.get? list.key members = some (.array (mounts.map .object))

/-- The objects in one of a template's lists. -/
def Json.mounts (template : Json) (list : MountList) : List (Entries Json) :=
  Authored.objectsOf (Entries.get? list.key (Authored.objectOf template))

theorem Json.Mounts.mounts_eq {template : Json} {list : MountList} {mounts : List (Entries Json)}
    (h : template.Mounts list mounts) : template.mounts list = mounts := by
  obtain ⟨members, rfl, hm⟩ := h
  show Authored.objectsOf (Entries.get? list.key members) = mounts
  rw [hm, Authored.objectsOf, List.map_map]
  exact List.map_id _

namespace Template

theorem mounts_turrets (t : Template) :
    t.toJson.Mounts .turrets (t.turrets.map Turret.members) := by
  have hsensors : ("sensors" : Text) ≠ "turrets" := by decide
  have harmaments : ("armaments" : Text) ≠ "turrets" := by decide
  refine ⟨t.members, rfl, ?_⟩
  simp only [MountList.key, members, Entries.get?_put, hsensors, harmaments, if_false, if_true,
    List.map_map]
  rfl

theorem mounts_armaments (t : Template) :
    t.toJson.Mounts .armaments (t.armaments.map Armament.members) := by
  have hsensors : ("sensors" : Text) ≠ "armaments" := by decide
  refine ⟨t.members, rfl, ?_⟩
  simp only [MountList.key, members, Entries.get?_put, hsensors, if_false, if_true, List.map_map]
  rfl

end Template

/-! ### Fields that are set -/

/-- The fields that have a value. -/
def setMembers (fields : List (Text × Option Json)) : Entries Json :=
  fields.filterMap fun field => field.2.map fun v => (field.1, v)

/-- Members with fields put into them one after the other. -/
def putFields (fields : List (Text × Option Json)) (members : Entries Json) : Entries Json :=
  fields.foldl (fun members field => putSome field.1 id field.2 members) members

theorem putSome_eq_map {α : Type} (key : Text) (toJson : α → Json) (value : Option α)
    (members : Entries Json) :
    putSome key toJson value members = putSome key id (value.map toJson) members := by
  cases value <;> rfl

/-- New fields come last, in order. -/
theorem putFields_eq_append {fields : List (Text × Option Json)} {members : Entries Json}
    (hn : (fields.map (·.1)).Nodup) (hl : members.Lacks (fields.map (·.1))) :
    putFields fields members = members ++ setMembers fields := by
  induction fields generalizing members with
  | nil => exact (List.append_nil members).symm
  | cons field rest ih =>
    obtain ⟨key, value⟩ := field
    obtain ⟨hfirst, hrest⟩ := List.nodup_cons.mp hn
    have hnew : key ∉ members.keys := hl key (List.mem_cons_self ..)
    have hothers : members.Lacks (rest.map (·.1)) :=
      fun other ho => hl other (List.mem_cons_of_mem _ ho)
    cases value with
    | none => exact ih hrest hothers
    | some v =>
      -- the key that is new now is none of those still to come
      have hlacks : Entries.Lacks (rest.map (·.1)) (members ++ [(key, v)]) := by
        intro other ho hm
        rw [Entries.keys, List.map_append, List.mem_append] at hm
        rcases hm with hm | hm
        · exact hothers other ho hm
        · obtain rfl : other = key := by simpa using hm
          exact hfirst ho
      have hput : putSome key id (some v) members = members ++ [(key, v)] :=
        Entries.put_of_not_mem hnew v
      rw [putFields, List.foldl_cons, hput]
      refine (ih hrest hlacks).trans ?_
      rw [List.append_assoc]
      rfl

theorem nodup_keys_putFields {fields : List (Text × Option Json)} {members : Entries Json}
    (hn : members.keys.Nodup) : (Entries.keys (putFields fields members)).Nodup := by
  induction fields generalizing members with
  | nil => exact hn
  | cons field rest ih =>
    obtain ⟨key, value⟩ := field
    cases value with
    | none => exact ih hn
    | some v => exact ih (Entries.nodup_keys_put key v hn)

theorem putFields_of_lacks {fields : List (Text × Option Json)} {keys known : List Text}
    {members : Entries Json} (hkeys : fields.map (·.1) = keys) (hn : keys.Nodup)
    (hk : keys ⊆ known) (h : members.Lacks known) :
    putFields fields members = members ++ setMembers fields :=
  putFields_eq_append (hkeys ▸ hn) (hkeys ▸ fun key hm => h key (hk hm))

/-! ### The fields of a record, in the order of the artifact -/

def turretFields (angle side : Binary64) (reference : Option Text) : List (Text × Option Json) :=
  [("angle", some (.float angle)), ("positionSide", some (.float side)),
    ("type", reference.map .string)]

def armamentFields (angle side : Binary64) (turret : Option Int) : List (Text × Option Json) :=
  [("angle", some (.float angle)), ("positionSide", some (.float side)),
    ("turret", turret.map .int)]

def sensorFields (range : Option Binary64) : List (Text × Option Json) :=
  [("range", range.map .float)]

def templateFields (kind subtype : Option Text) (length range damage : Option Binary64)
    (turrets armaments sensors : List (Entries Json)) : List (Text × Option Json) :=
  [("type", kind.map .string), ("subtype", subtype.map .string), ("length", length.map .float),
    ("range", range.map .float), ("damage", damage.map .float),
    ("turrets", some (.array (turrets.map .object))),
    ("armaments", some (.array (armaments.map .object))),
    ("sensors", some (.array (sensors.map .object)))]

theorem Turret.members_eq_putFields (t : Turret) :
    t.members = putFields (turretFields t.angle t.side t.reference) t.extra :=
  putSome_eq_map "type" .string t.reference _

theorem Armament.members_eq_putFields (a : Armament) :
    a.members = putFields (armamentFields a.angle a.side a.turret) a.extra :=
  putSome_eq_map "turret" .int a.turret _

def Sensor.members (s : Sensor) : Entries Json := putSome "range" .float s.range s.extra

theorem Sensor.members_eq_putFields (s : Sensor) :
    s.members = putFields (sensorFields s.range) s.extra :=
  putSome_eq_map "range" .float s.range _

theorem Template.members_eq_putFields (t : Template) : t.members =
    putFields (templateFields t.kind t.subtype t.length t.range t.damage
      (t.turrets.map Turret.members) (t.armaments.map Armament.members)
      (t.sensors.map Sensor.members)) t.extra := by
  have hturrets : t.turrets.map Turret.toJson = (t.turrets.map Turret.members).map .object :=
    (List.map_map ..).symm
  have harmaments : t.armaments.map Armament.toJson =
      (t.armaments.map Armament.members).map .object := (List.map_map ..).symm
  have hsensors : t.sensors.map Sensor.toJson = (t.sensors.map Sensor.members).map .object :=
    (List.map_map ..).symm
  simp only [members, attributeMembers, putSome_eq_map _ Json.string, putSome_eq_map _ Json.float,
    hturrets, harmaments, hsensors]
  rfl

theorem Turret.members_eq_append {t : Turret} (h : t.extra.Lacks Authored.Turret.knownKeys) :
    t.members = t.extra ++ setMembers (turretFields t.angle t.side t.reference) := by
  have hkeys : (turretFields t.angle t.side t.reference).map (·.1) =
      ["angle", "positionSide", "type"] := rfl
  rw [members_eq_putFields]
  exact putFields_of_lacks hkeys (by decide) (by decide) h

theorem Armament.members_eq_append {a : Armament}
    (h : a.extra.Lacks Authored.Armament.knownKeys) :
    a.members = a.extra ++ setMembers (armamentFields a.angle a.side a.turret) := by
  have hkeys : (armamentFields a.angle a.side a.turret).map (·.1) =
      ["angle", "positionSide", "turret"] := rfl
  rw [members_eq_putFields]
  exact putFields_of_lacks hkeys (by decide) (by decide) h

theorem Sensor.members_eq_append {s : Sensor} (h : s.extra.Lacks Authored.Sensor.knownKeys) :
    s.members = s.extra ++ setMembers (sensorFields s.range) := by
  have hkeys : (sensorFields s.range).map (·.1) = Authored.Sensor.knownKeys := rfl
  rw [members_eq_putFields]
  exact putFields_of_lacks hkeys (by decide) (List.Subset.refl _) h

theorem Template.members_eq_append {t : Template}
    (h : t.extra.Lacks Authored.Template.knownKeys) : t.members = t.extra ++
      setMembers (templateFields t.kind t.subtype t.length t.range t.damage
        (t.turrets.map Turret.members) (t.armaments.map Armament.members)
        (t.sensors.map Sensor.members)) := by
  have hkeys : (templateFields t.kind t.subtype t.length t.range t.damage
      (t.turrets.map Turret.members) (t.armaments.map Armament.members)
      (t.sensors.map Sensor.members)).map (·.1) = Authored.Template.knownKeys := rfl
  rw [members_eq_putFields]
  exact putFields_of_lacks hkeys (by decide) (List.Subset.refl _) h

theorem Turret.nodup_keys_members {t : Turret} (h : t.extra.keys.Nodup) : t.members.keys.Nodup := by
  rw [members_eq_putFields]
  exact nodup_keys_putFields h

theorem Armament.nodup_keys_members {a : Armament} (h : a.extra.keys.Nodup) :
    a.members.keys.Nodup := by
  rw [members_eq_putFields]
  exact nodup_keys_putFields h

theorem Sensor.nodup_keys_members {s : Sensor} (h : s.extra.keys.Nodup) : s.members.keys.Nodup := by
  rw [members_eq_putFields]
  exact nodup_keys_putFields h

theorem Template.nodup_keys_members {t : Template} (h : t.extra.keys.Nodup) :
    t.members.keys.Nodup := by
  rw [members_eq_putFields]
  exact nodup_keys_putFields h

end EntityTable
