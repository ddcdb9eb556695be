import EntityTable.Proofs.Artifact.Layout
import EntityTable.Proofs.Authored.Sound
import EntityTable.Proofs.Saturation

/-!
Ranges and damages in an artifact. Both obey the rules as the artifact itself shows them: a range
keeps to the ceiling for the type, subtype and length next to it, and a damage that was not authored
keeps to the curve of that subtype.
-/

namespace EntityTable

/-! ### Fields of a rendered template -/

theorem mem_keys_of_mem_setMembers {fields : List (Text × Option Json)} {key : Text}
    (h : key ∈ Entries.keys (setMembers fields)) : key ∈ fields.map (·.1) := by
  obtain ⟨entry, he, rfl⟩ := List.mem_map.mp h
  obtain ⟨field, hf, hset⟩ := List.mem_filterMap.mp he
  obtain ⟨v, -, rfl⟩ := Option.map_eq_some_iff.mp hset
  exact List.mem_map_of_mem hf

/-- A field has the value it is set to, if any. -/
theorem get?_setMembers {fields : List (Text × Option Json)} (hn : (fields.map (·.1)).Nodup)
    {key : Text} {value : Option Json} (h : (key, value) ∈ fields) :
    Entries.get? key (setMembers fields) = value := by
  induction fields with
  | nil => cases h
  | cons field rest ih =>
    obtain ⟨first, set⟩ := field
    obtain ⟨hfirst, hrest⟩ := List.nodup_cons.mp hn
    have hstep : setMembers ((first, set) :: rest) =
        (set.map fun v => (first, v)).toList ++ setMembers rest := by
      cases set <;> rfl
    rw [hstep, Entries.get?_append]
    rcases List.mem_cons.mp h with heq | hmem
    · obtain ⟨rfl, rfl⟩ := Prod.mk.inj heq
      have hnone : Entries.get? key (setMembers rest) = none :=
        Entries.get?_eq_none_iff.mpr fun hm => hfirst (mem_keys_of_mem_setMembers hm)
      cases value <;> simp [Entries.get?, hnone]
    · have hne : first ≠ key := by
        rintro rfl
        exact hfirst (List.mem_map.mpr ⟨_, hmem, rfl⟩)
      rw [ih hrest hmem]
      cases set <;> simp [Entries.get?, hne]

/-- Fields with a meaning are found where they are set, whatever was authored. -/
theorem get?_without_append {known : List Text} {fields : List (Text × Option Json)}
    (hn : known.Nodup) (hk : fields.map (·.1) = known) {key : Text} {value : Option Json}
    (h : (key, value) ∈ fields) (authored : Entries Json) :
    Entries.get? key (authored.without known ++ setMembers fields) = value := by
  have hknown : key ∈ known := hk ▸ List.mem_map_of_mem (f := Prod.fst) h
  have hnone : (authored.without known).get? key = none :=
    Entries.get?_eq_none_iff.mpr (Entries.lacks_without known authored key hknown)
  rw [Entries.get?_append, hnone, Option.none_or]
  exact get?_setMembers (hk ▸ hn) h

namespace Authored

theorem stringOf_map (value : Option Text) : stringOf (value.map .string) = value := by
  cases value <;> rfl

theorem numberOf_map (value : Option Binary64) : numberOf (value.map .float) = value := by
  cases value <;> rfl

end Authored

open Authored (numberOf stringOf objectsOf IsUnset)

/-- The attributes of a compiled template, and what they depend on. -/
structure HasAttributes (authored compiled : Entries Json) (range damage : Option Binary64) :
    Prop where
  kind : compiled.get? "type" = (stringOf (authored.get? "type")).map .string
  subtype : compiled.get? "subtype" = (stringOf (authored.get? "subtype")).map .string
  length : compiled.get? "length" = (numberOf (authored.get? "length")).map .float
  range : compiled.get? "range" = range.map .float
  damage : compiled.get? "damage" = damage.map .float
  sensors : compiled.get? "sensors" =
    some (.array (((objectsOf (authored.get? "sensors")).map Authored.sensorObject).map .object))

theorem LaidOut.exists_attributes {table : Entries Json} {owner : Text}
    {authored compiled : Entries Json} {turrets armaments sensors : List (Entries Json)}
    (h : LaidOut table owner authored compiled turrets armaments sensors) :
    ∃ range damage, (Authored.Template.meaning authored).deriveRange owner = .ok range ∧
      ((Authored.Template.meaning authored).deriveDamage owner).outcome = .ok damage ∧
      HasAttributes authored compiled range damage := by
  obtain ⟨range, damage, hrange, hdamage, heq⟩ := h.fields
  have hfield {key : Text} {value : Option Json} (hf : (key, value) ∈ templateFields
      (stringOf (authored.get? "type")) (stringOf (authored.get? "subtype"))
      (numberOf (authored.get? "length")) range damage turrets armaments sensors) :
      compiled.get? key = value := by
    have hdistinct : Authored.Template.knownKeys.Nodup := by decide
    rw [heq]
    exact get?_without_append hdistinct rfl hf authored
  rw [h.sensors_eq] at hfield
  exact ⟨range, damage, hrange, hdamage, hfield (by simp [templateFields]),
    hfield (by simp [templateFields]), hfield (by simp [templateFields]),
    hfield (by simp [templateFields]), hfield (by simp [templateFields]),
    hfield (by simp [templateFields])⟩

/-! ### Rules -/

/-- A weapon of the subtype, as an object has it. -/
def IsWeapon (template : Entries Json) (subtype : WeaponSubtype) : Prop :=
  template.get? "type" = some (.string "weapon") ∧
    template.get? "subtype" = some (.string subtype.name)

theorem weaponSubtype?_meaning_iff {template : Entries Json} {subtype : WeaponSubtype} :
    (Authored.Template.meaning template).weaponSubtype? = some subtype ↔
      IsWeapon template subtype := by
  rw [Authored.Template.weaponSubtype?_eq_some_iff]
  exact and_congr Authored.stringOf_eq_some_iff Authored.stringOf_eq_some_iff

/-- A range is there if one is authored, and is that one up to the ceiling for the type, subtype
and length that the object shows. -/
structure RangeRuled (owner : Text) (authored compiled : Entries Json) : Prop where
  present : ("range" : Text) ∈ compiled.keys ↔ ¬IsUnset (authored.get? "range")
  capped : ∀ v, compiled.get? "range" = some v → ∃ x ceiling range,
    numberOf (authored.get? "range") = some x ∧
      (Authored.Template.meaning compiled).rangeCeiling owner = .ok ceiling ∧
      v = .float range ∧ range.le ceiling = true ∧ range = if x.le ceiling then x else ceiling

/-- A damage is there if one is authored or the subtype has a rule for it. -/
structure DamageRuled (authored compiled : Entries Json) : Prop where
  present : ("damage" : Text) ∈ compiled.keys ↔ ¬IsUnset (authored.get? "damage") ∨
    ∃ subtype ∈ [WeaponSubtype.torpedo, .rocket, .missile, .shell, .depthCharge],
      IsWeapon compiled subtype
  kept : ∀ x, numberOf (authored.get? "damage") = some x →
    compiled.get? "damage" = some (.float x)
  derived : IsUnset (authored.get? "damage") → ∀ v, compiled.get? "damage" = some v →
    ∃ subtype x, IsWeapon compiled subtype ∧ v = .float x ∧
      (subtype = .depthCharge ∧ x = 1 ∨
        ∃ curve length, (subtype, curve) ∈ WeaponSubtype.damages ∧
          numberOf (compiled.get? "length") = some length ∧ x = curve.at length ∧
          x.isFinite = true ∧ curve.outLow.le x = true ∧ x.le curve.outHigh = true)

/-- A sensor has a range if one is authored, up to the limit of every sensor. -/
structure SensorRuled (authored compiled : Entries Json) : Prop where
  present : ("range" : Text) ∈ compiled.keys ↔ ¬IsUnset (authored.get? "range")
  capped : ∀ x, numberOf (authored.get? "range") = some x →
    compiled.get? "range" = some (.float (if x.le 2000 then x else 2000))

/-- A field with an optional number is there if the number is. -/
theorem mem_keys_iff_of_get? {compiled : Entries Json} {key : Text} {value : Option Binary64}
    (h : compiled.get? key = value.map .float) : key ∈ compiled.keys ↔ value ≠ none := by
  rw [← not_iff_not, ← Entries.get?_eq_none_iff, h, Option.map_eq_none_iff, not_ne_iff]

section Templates

variable {owner : Text} {authored compiled : Entries Json} {range damage : Option Binary64}
  (h : HasAttributes authored compiled range damage)
include h

theorem HasAttributes.weaponSubtype?_eq : (Authored.Template.meaning compiled).weaponSubtype? =
    (Authored.Template.meaning authored).weaponSubtype? := by
  apply Authored.Template.weaponSubtype?_congr
  · simp only [Authored.Template.meaning, h.kind, Authored.stringOf_map]
  · simp only [Authored.Template.meaning, h.subtype, Authored.stringOf_map]

theorem HasAttributes.rangeCeiling_eq :
    (Authored.Template.meaning compiled).rangeCeiling owner =
      (Authored.Template.meaning authored).rangeCeiling owner := by
  apply Authored.Template.rangeCeiling_congr
  · simp only [Authored.Template.meaning, h.kind, Authored.stringOf_map]
  · simp only [Authored.Template.meaning, h.subtype, Authored.stringOf_map]
  · simp only [Authored.Template.meaning, h.length, Authored.numberOf_map]

variable (hshape : Authored.Template.Shaped authored)
  (hfit : Authored.Template.IntegersFit authored)
  (hsound : (Authored.Template.meaning authored).Sound)
include hshape hfit hsound

theorem HasAttributes.rangeRuled
    (hr : (Authored.Template.meaning authored).deriveRange owner = .ok range) :
    RangeRuled owner authored compiled := by
  have hunset : numberOf (authored.get? "range") = none ↔ IsUnset (authored.get? "range") :=
    Authored.numberOf_eq_none_iff hshape.range (hfit.attributes "range" (by simp))
  unfold Authored.Template.deriveRange at hr
  cases ha : (Authored.Template.meaning authored).range with
  | none =>
    rw [ha] at hr
    obtain rfl := Except.ok.inj hr
    constructor
    case present => simpa [mem_keys_iff_of_get? h.range] using hunset.mp ha
    case capped =>
      intro v hv
      rw [h.range] at hv
      cases hv
  | some x =>
    rw [ha] at hr
    obtain ⟨ceiling, hc, rfl⟩ := map_eq_ok_iff.mp hr
    have hx := Binary64.isNaN_of_isFinite (hsound.range x ha)
    have hceiling := Binary64.isNaN_of_isFinite
      (Authored.Template.isFinite_of_rangeCeiling hsound.length hc)
    have hset : ¬IsUnset (authored.get? "range") := by
      rw [← hunset]
      exact fun hnone => Option.some_ne_none x (ha.symm.trans hnone)
    constructor
    case present => simpa [mem_keys_iff_of_get? h.range] using hset
    case capped =>
      intro v hv
      obtain rfl : Json.float (x.min ceiling) = v := Option.some.inj (h.range.symm.trans hv)
      exact ⟨x, ceiling, _, ha, h.rangeCeiling_eq.trans hc, rfl, Binary64.min_le_right hx hceiling,
        Binary64.min_eq_ite hx hceiling⟩

theorem HasAttributes.damageRuled
    (hd : ((Authored.Template.meaning authored).deriveDamage owner).outcome = .ok damage) :
    DamageRuled authored compiled := by
  have hunset : numberOf (authored.get? "damage") = none ↔ IsUnset (authored.get? "damage") :=
    Authored.numberOf_eq_none_iff hshape.damage (hfit.attributes "damage" (by simp))
  have hweapon (subtype : WeaponSubtype) :
      (Authored.Template.meaning authored).weaponSubtype? = some subtype ↔
        IsWeapon compiled subtype := by
    rw [← h.weaponSubtype?_eq, weaponSubtype?_meaning_iff]
  cases ha : (Authored.Template.meaning authored).damage with
  | some x =>
    have hset : ¬IsUnset (authored.get? "damage") := by
      rw [← hunset]
      exact fun hnone => Option.some_ne_none x (ha.symm.trans hnone)
    rw [Authored.Template.deriveDamage_of_authored ha] at hd
    obtain rfl := Except.ok.inj hd
    constructor
    case present => simp [mem_keys_iff_of_get? h.damage, hset]
    case kept =>
      intro y hy
      rw [h.damage, ← ha]
      exact congrArg _ hy
    case derived => exact fun hnone => absurd hnone hset
  | none =>
    have hset : IsUnset (authored.get? "damage") := hunset.mp ha
    constructor
    case present =>
      rw [mem_keys_iff_of_get? h.damage, Authored.Template.damage_ne_none_iff ha hd]
      simp [hset, hweapon]
    case kept =>
      intro x hx
      exact absurd (hx.symm.trans ha) (Option.some_ne_none x)
    case derived =>
      intro _ v hv
      rw [h.damage] at hv
      obtain ⟨x, rfl, rfl⟩ := Option.map_eq_some_iff.mp hv
      obtain ⟨subtype, hs, hvalue⟩ := Authored.Template.derived_damage hsound.length ha hd
      have hlength : numberOf (compiled.get? "length") =
          (Authored.Template.meaning authored).length := by
        rw [h.length, Authored.numberOf_map]
        rfl
      rw [hlength]
      exact ⟨subtype, x, (hweapon subtype).mp hs, rfl, hvalue⟩

end Templates

section Sensors

variable {mount : Entries Json} (hshape : Authored.Sensor.Shaped mount)
  (hfit : Authored.IntegersFit ["range"] mount) (hsound : (Authored.Sensor.meaning mount).Sound)
include hshape hfit hsound

theorem sensorRuled : SensorRuled mount (Authored.sensorObject mount) := by
  have hunset : numberOf (mount.get? "range") = none ↔ IsUnset (mount.get? "range") :=
    Authored.numberOf_eq_none_iff hshape.range (hfit "range" (by simp))
  have hdistinct : Authored.Sensor.knownKeys.Nodup := by decide
  have hrange : (Authored.sensorObject mount).get? "range" =
      ((numberOf (mount.get? "range")).map (·.min sensorRangeCeiling)).map .float :=
    get?_without_append hdistinct rfl (List.mem_singleton_self _) mount
  constructor
  case present =>
    rw [mem_keys_iff_of_get? hrange, ne_eq, Option.map_eq_none_iff, hunset]
  case capped =>
    intro x hx
    have hceiling : sensorRangeCeiling.isNaN = false := by decide +kernel
    have hnumber := Binary64.isNaN_of_isFinite (hsound.range x hx)
    rw [hrange, hx, Option.map_some, Option.map_some, Binary64.min_eq_ite hnumber hceiling]
    rfl

end Sensors

/-- Mounts in a list are shaped as the list asks for, and the integers among their numbers fit. -/
theorem shaped_of_mem_objectsOf {Shaped : Entries Json → Prop} {keys : List Text}
    {v : Option Json} (hs : Authored.AreMounts Shaped v) (hf : Authored.MountIntegersFit keys v)
    {mount : Entries Json} (hm : mount ∈ objectsOf v) :
    Shaped mount ∧ Authored.IntegersFit keys mount := by
  obtain ⟨items, rfl, hitem⟩ := (Authored.mem_objectsOf_iff hs).mp hm
  obtain ⟨members, heq, hshaped⟩ := hs _ hitem
  obtain rfl := Json.object.inj heq
  exact ⟨hshaped, hf _ hitem mount rfl⟩

/-- No finite length takes a curve beyond the finite numbers, and what is derived obeys the rules in
every template of an artifact. -/
theorem compile_attributes :
    (∀ (subtype : WeaponSubtype) (curve : Curve),
      subtype.ceilingCurve? = some curve ∨ subtype.damageRule = .curve curve →
        ∀ length : Binary64, length.isFinite = true → (curve.at length).isFinite = true) ∧
    ∀ input output : Json, input.KeysDistinct → (compile input).outcome = .ok output →
      ∃ members table : Entries Json, input = .object members ∧ output = .object table ∧
        ∀ key template, (key, template) ∈ table →
          ∃ (authored compiled : Entries Json) (sensors : List (Entries Json)),
            (key, .object authored) ∈ members ∧ template = .object compiled ∧
              RangeRuled key authored compiled ∧ DamageRuled authored compiled ∧
              compiled.get? "sensors" = some (.array (sensors.map .object)) ∧
              List.Forall₂ SensorRuled (objectsOf (authored.get? "sensors")) sensors := by
  constructor
  · rintro subtype curve (hcurve | hcurve) length hlength
    · exact (WeaponSubtype.rising_of_ceilingCurve? hcurve).at_isFinite hlength
    · exact (WeaponSubtype.rising_of_damageRule hcurve).at_isFinite hlength
  · intro input output hd h
    obtain ⟨members, normalized, rfl, hs, rfl⟩ := compile_eq_ok_iff.mp h
    refine ⟨members, normalized.rendered, rfl, rfl, ?_⟩
    intro key template ht
    obtain ⟨authored, compiled, hv, hfound, hc, rfl⟩ := hs.exists_authored_of_mem hd ht
    obtain ⟨range, damage, hrange, hdamage, hfields⟩ :=
      (hs.laidOut hd hfound hc).exists_attributes
    -- what reading the input has established
    obtain ⟨_, heq, hshape⟩ := Authored.Table.shaped_of_ofJson hs.read _ hv
    obtain rfl := Json.object.inj heq
    have hfit := Authored.Table.integersFit_of_ofJson hs.read _ hv authored rfl
    have hsound : (Authored.Template.meaning authored).Sound :=
      Authored.Table.sound_of_ofJson hs.read _ (List.mem_map_of_mem hv)
    refine ⟨authored, _, _, hv, rfl, hfields.rangeRuled hshape hfit hsound hrange,
      hfields.damageRuled hshape hfit hsound hdamage, hfields.sensors, ?_⟩
    rw [List.forall₂_map_right_iff, List.forall₂_same]
    intro mount hm
    obtain ⟨hmount, hmountFit⟩ := shaped_of_mem_objectsOf hshape.sensors hfit.sensors hm
    exact sensorRuled hmount hmountFit (hsound.sensors _ (List.mem_map_of_mem hm))

/-- A shell of next to no length that is to reach far, with a sensor that is to reach farther. -/
def stubby : Entries Json :=
  [("type", .string "weapon"), ("subtype", .string "shell"), ("length", .float 5e-324),
    ("range", .int 900), ("damage", .null), ("sensors", .array [.object [("range", .int 2500)]])]

theorem compile_stubby : (Curve.at ⟨0.2, 2, 250, 800⟩ 5e-324).isFinite = true ∧
    (Json.object [("stubby", .object stubby)]).KeysDistinct ∧
    ∃ output, (compile (.object [("stubby", .object stubby)])).outcome = .ok output ∧
      ∃ (table compiled : Entries Json) (sensors : List (Entries Json)),
        output = .object table ∧ (("stubby" : Text), Json.object compiled) ∈ table ∧
          RangeRuled "stubby" stubby compiled ∧ DamageRuled stubby compiled ∧
          List.Forall₂ SensorRuled (objectsOf (stubby.get? "sensors")) sensors := by
  have hd : (Json.object [("stubby", .object stubby)]).KeysDistinct := by
    simp only [stubby, Json.KeysDistinct, Json.MembersDistinct, Json.ItemsDistinct, Entries.keys,
      and_true]
    decide
  obtain ⟨output, h⟩ : ∃ output, (compile (.object [("stubby", .object stubby)])).outcome =
      .ok output := exists_eq_ok_of_isSome (by decide +kernel)
  obtain ⟨members, table, heq, rfl, hall⟩ := compile_attributes.2 _ output hd h
  obtain rfl := Json.object.inj heq
  have hkeys : (compile (.object [("stubby", .object stubby)])).outcome.toOption.map
      (fun output => Entries.keys (Authored.objectOf output)) = some [("stubby" : Text)] := by
    decide +kernel
  rw [h] at hkeys
  have hkey : ("stubby" : Text) ∈ Entries.keys table := by
    rw [show Entries.keys table = ["stubby"] from Option.some.inj hkeys]
    exact List.mem_singleton_self _
  obtain ⟨template, ht⟩ := Entries.exists_get?_of_mem_keys hkey
  have ht := Entries.mem_of_get? ht
  obtain ⟨authored, compiled, sensors, hv, rfl, hrange, hdamage, -, hsensors⟩ := hall _ _ ht
  obtain ⟨-, heq⟩ := Prod.mk.inj (List.mem_singleton.mp hv)
  obtain rfl := Json.object.inj heq
  exact ⟨compile_attributes.1 .shell _ (.inl rfl) _ (by decide +kernel), hd, _, h, table, compiled,
    sensors, rfl, ht, hrange, hdamage, hsensors⟩

end EntityTable
