import EntityTable.Proofs.Artifact.Layout
import EntityTable.Proofs.Json.Pieces

/-!
The integers of an artifact. They are kept aside as they were authored, or they number turrets, so
that all are short enough to be written if the authored ones are and the turrets can be numbered.
-/

namespace EntityTable

open Json (ShortInteger)

/-! ### Rendered records -/

namespace Json

variable {members : Entries Json}

theorem shortInteger_object_iff : (Json.object members).Throughout ShortInteger ↔
    ∀ entry ∈ members, entry.2.Throughout ShortInteger :=
  Throughout.object_iff.trans (and_iff_right trivial)

theorem shortInteger_array_iff {items : List Json} : (Json.array items).Throughout ShortInteger ↔
    ∀ v ∈ items, v.Throughout ShortInteger :=
  Throughout.array_iff.trans (and_iff_right trivial)

theorem shortInteger_float (x : Binary64) : (Json.float x).Throughout ShortInteger :=
  .intro trivial (List.forall_mem_nil _)

theorem shortInteger_string (t : Text) : (Json.string t).Throughout ShortInteger :=
  .intro trivial (List.forall_mem_nil _)

theorem shortInteger_index {i : Nat} (h : i < 10 ^ Text.maxIntegerDigits) :
    (Json.int i).Throughout ShortInteger :=
  .intro (Text.length_ofNat_le (by decide) h) (List.forall_mem_nil _)

theorem shortInteger_put (h : (Json.object members).Throughout ShortInteger) {v : Json}
    (hv : v.Throughout ShortInteger) (key : Text) :
    (Json.object (members.put key v)).Throughout ShortInteger := by
  refine shortInteger_object_iff.mpr fun entry he => ?_
  rcases Entries.mem_of_mem_put he with rfl | hm
  · exact hv
  · exact shortInteger_object_iff.mp h entry hm

theorem shortInteger_putSome (h : (Json.object members).Throughout ShortInteger) {α : Type}
    {toJson : α → Json} {value : Option α} (hv : ∀ x ∈ value, (toJson x).Throughout ShortInteger)
    (key : Text) : (Json.object (putSome key toJson value members)).Throughout ShortInteger := by
  cases value with
  | none => exact h
  | some x => exact shortInteger_put h (hv x rfl) key

theorem shortInteger_without (h : (Json.object members).Throughout ShortInteger)
    (known : List Text) : (Json.object (members.without known)).Throughout ShortInteger :=
  shortInteger_object_iff.mpr fun entry he =>
    shortInteger_object_iff.mp h entry (List.mem_of_mem_filter he)

end Json

/-- What is kept aside has short integers only. -/
structure Template.AsideShort (t : Template) : Prop where
  turrets : ∀ turret ∈ t.turrets, (Json.object turret.extra).Throughout ShortInteger
  armaments : ∀ a ∈ t.armaments, (Json.object a.extra).Throughout ShortInteger
  sensors : ∀ sensor ∈ t.sensors, (Json.object sensor.extra).Throughout ShortInteger
  extra : (Json.object t.extra).Throughout ShortInteger

theorem shortInteger_mount {extra : Entries Json} (h : (Json.object extra).Throughout ShortInteger)
    (angle side : Binary64) : (Json.object
      ((extra.put "angle" (.float angle)).put "positionSide" (.float side))).Throughout
        ShortInteger :=
  Json.shortInteger_put (Json.shortInteger_put h (Json.shortInteger_float angle) _)
    (Json.shortInteger_float side) _

theorem Template.AsideShort.toJson {t : Template} (h : t.AsideShort)
    (hindices : ∀ a ∈ t.armaments, ∀ i ∈ a.turret, (Json.int i).Throughout ShortInteger) :
    t.toJson.Throughout ShortInteger := by
  have hattributes : (Json.object t.attributeMembers).Throughout ShortInteger := by
    have htext {members : Entries Json} (hm : (Json.object members).Throughout ShortInteger)
        (key : Text) (value : Option Text) :
        (Json.object (putSome key .string value members)).Throughout ShortInteger :=
      Json.shortInteger_putSome hm (fun t _ => Json.shortInteger_string t) key
    have hnumber {members : Entries Json} (hm : (Json.object members).Throughout ShortInteger)
        (key : Text) (value : Option Binary64) :
        (Json.object (putSome key .float value members)).Throughout ShortInteger :=
      Json.shortInteger_putSome hm (fun x _ => Json.shortInteger_float x) key
    have hnames := htext (htext h.extra "type" t.kind) "subtype" t.subtype
    exact hnumber (hnumber (hnumber hnames "length" t.length) "range" t.range) "damage" t.damage
  have hturrets : (Json.array (t.turrets.map Turret.toJson)).Throughout ShortInteger := by
    refine Json.shortInteger_array_iff.mpr (List.forall_mem_map.mpr fun turret ht => ?_)
    exact Json.shortInteger_putSome (shortInteger_mount (h.turrets turret ht) _ _)
      (fun t _ => Json.shortInteger_string t) _
  have harmaments : (Json.array (t.armaments.map Armament.toJson)).Throughout ShortInteger := by
    refine Json.shortInteger_array_iff.mpr (List.forall_mem_map.mpr fun a ha => ?_)
    exact Json.shortInteger_putSome (shortInteger_mount (h.armaments a ha) _ _) (hindices a ha) _
  have hsensors : (Json.array (t.sensors.map Sensor.toJson)).Throughout ShortInteger := by
    refine Json.shortInteger_array_iff.mpr (List.forall_mem_map.mpr fun sensor hs => ?_)
    exact Json.shortInteger_putSome (h.sensors sensor hs) (fun x _ => Json.shortInteger_float x) _
  exact Json.shortInteger_put (Json.shortInteger_put (Json.shortInteger_put hattributes hturrets _)
    harmaments _) hsensors _

/-! ### From the authored table -/

namespace Authored

theorem shortInteger_objectOf {v : Json} (h : v.Throughout ShortInteger) :
    (Json.object (objectOf v)).Throughout ShortInteger := by
  cases v with
  | object members => exact h
  | _ => exact Json.shortInteger_object_iff.mpr (List.forall_mem_nil _)

theorem shortInteger_of_mem_objectsOf {template : Members}
    (h : (Json.object template).Throughout ShortInteger) {key : Text} {mount : Members}
    (hm : mount ∈ objectsOf (template.get? key)) :
    (Json.object mount).Throughout ShortInteger := by
  obtain ⟨items, item, hget, hitem, rfl⟩ := exists_item_of_mem_objectsOf hm
  have hlist := Json.shortInteger_object_iff.mp h _ (Entries.mem_of_get? hget)
  exact shortInteger_objectOf (Json.shortInteger_array_iff.mp hlist item hitem)

theorem Template.asideShort_of_compile {template : Members}
    (h : (Json.object template).Throughout ShortInteger) {owner : Text}
    {compiled : EntityTable.Template}
    (hc : ((meaning template).compile owner).outcome = .ok compiled) : compiled.AsideShort := by
  rw [outcome_compile] at hc
  obtain ⟨range, -, hc⟩ := bind_eq_ok_iff.mp hc
  obtain ⟨damage, -, rfl⟩ := map_eq_ok_iff.mp hc
  refine ⟨?_, ?_, ?_, Json.shortInteger_without h _⟩
  · intro turret hm
    obtain ⟨authored, ha, hexpand⟩ := List.mem_flatMap.mp hm
    obtain ⟨mount, hmount, rfl⟩ := List.mem_map.mp ha
    rw [Turret.extra_of_mem_expand hexpand]
    exact Json.shortInteger_without (shortInteger_of_mem_objectsOf h hmount) _
  · intro armament hm
    obtain ⟨authored, ha, hexpand⟩ := List.mem_flatMap.mp hm
    obtain ⟨mount, hmount, rfl⟩ := List.mem_map.mp ha
    rw [(Armament.extra_of_mem_expand hexpand).1]
    exact Json.shortInteger_without (shortInteger_of_mem_objectsOf h hmount) _
  · intro sensor hm
    obtain ⟨authored, ha, rfl⟩ := List.mem_map.mp hm
    obtain ⟨mount, hmount, rfl⟩ := List.mem_map.mp ha
    exact Json.shortInteger_without (shortInteger_of_mem_objectsOf h hmount) _

/-- At most two turrets come from each that is authored, and no armament has an index yet. -/
theorem Template.indices_of_compile {t : Template} {owner : Text} {compiled : EntityTable.Template}
    (hc : (t.compile owner).outcome = .ok compiled) :
    compiled.turrets.length ≤ 2 * t.turrets.length ∧ ∀ a ∈ compiled.armaments, a.turret = none := by
  obtain ⟨hturrets, harmaments⟩ := mounts_of_compile hc
  constructor
  · have hcount := List.countP_le_length (p := Turret.symmetrical) (l := t.turrets)
    rw [hturrets, Turret.expand_eq, length_flatMap_paired]
    omega
  · intro a ha
    rw [harmaments] at ha
    obtain ⟨authored, -, hexpand⟩ := List.mem_flatMap.mp ha
    exact (Armament.extra_of_mem_expand hexpand).2

end Authored

/-- An armament in a full list is the template's own, or it has the index of one of its turrets. -/
theorem Table.turret_of_mem_full {table : Table} {key : Text} {template : Template}
    {armaments : List Armament} (hc : table.collect [] key = .ok armaments)
    (ht : table.get? key = some template) {a : Armament} (ha : a ∈ table.full key) :
    a ∈ template.armaments ∨ ∃ i < template.turrets.length, a.turret = some (i : Int) := by
  rw [full_eq_append hc ht, List.mem_append] at ha
  rcases ha with hown | hcarried
  · exact .inl hown
  · obtain ⟨i, carrier, hi, hcarries⟩ := Turret.mem_allCarry hcarried
    exact .inr ⟨i, (List.getElem?_eq_some_iff.mp hi).1, Turret.turret_of_mem_carries hcarries⟩

/-- All integers of the artifact can be written, if those of the authored table can and no template
has too many turrets to number them. -/
theorem Stages.shortInteger {members : Entries Json} {normalized : Table}
    (hs : Stages members normalized) (hn : normalized.keys.Nodup)
    (h : (Json.object members).Throughout ShortInteger)
    (hcount : ∀ source ∈ Authored.Table.meaning members,
      2 * source.2.turrets.length ≤ 10 ^ Text.maxIntegerDigits) :
    (Json.object normalized.rendered).Throughout ShortInteger := by
  have haside : ∀ entry ∈ normalized, entry.2.AsideShort := by
    intro entry he
    obtain ⟨source, hm, -, hc⟩ := hs.exists_source he
    obtain ⟨⟨key, v⟩, hv, rfl⟩ := List.mem_map.mp hm
    exact Authored.Template.asideShort_of_compile
      (Authored.shortInteger_objectOf (Json.shortInteger_object_iff.mp h (key, v) hv)) hc
  refine Json.shortInteger_object_iff.mpr fun rendered hr => ?_
  obtain ⟨entry, he, rfl⟩ := List.mem_map.mp hr
  obtain ⟨armaments, hcollect⟩ := hs.collected entry he
  have hentry := haside entry he
  refine Template.AsideShort.toJson ⟨hentry.turrets, ?_, hentry.sensors, hentry.extra⟩ ?_
  · intro a ha
    obtain ⟨source, behind, hb, own, hown, hcopy⟩ := Table.mem_full hcollect ha
    have hextra := (haside _ (Entries.mem_of_get? hb)).armaments own hown
    rcases hcopy with rfl | ⟨i, rfl⟩
    · exact hextra
    · exact hextra
  · intro a ha i hi
    obtain ⟨source, hm, -, hc⟩ := hs.exists_source he
    obtain ⟨hlength, hnone⟩ := Authored.Template.indices_of_compile hc
    have htemplate := Entries.get?_of_mem hn (show (entry.1, entry.2) ∈ normalized from he)
    rcases Table.turret_of_mem_full hcollect htemplate ha with hown | ⟨index, hindex, hturret⟩
    · rw [hnone a hown] at hi
      cases hi
    · obtain rfl := Option.some.inj (hturret.symm.trans hi)
      exact Json.shortInteger_index (by have := hcount source hm; omega)

end EntityTable
