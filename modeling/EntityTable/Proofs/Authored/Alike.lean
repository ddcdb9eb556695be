import EntityTable.Proofs.Authored.Meaning
import EntityTable.Proofs.Json.Reordered

/-!
Reading does not see in which order objects list their entries: the shape is the same, and so is
the meaning, but for the order of the fields kept aside.
-/

namespace EntityTable.Authored

open Json (Alike)

/-! ### Fields -/

section Fields

variable {v w : Option Json}

/-- What looks neither into arrays nor into objects cannot tell alike values apart. -/
theorem eq_of_alike {β : Type} (f : Option Json → β)
    (harray : ∀ items items', f (some (.array items)) = f (some (.array items')))
    (hobject : ∀ members members', f (some (.object members)) = f (some (.object members')))
    (h : Option.Rel Alike v w) : f v = f w := by
  cases h with
  | none => rfl
  | some h =>
    cases h.reordered with
    | null | bool | int | float | string => rfl
    | array => exact harray _ _
    | object => exact hobject _ _

theorem isUnset_eq (h : Option.Rel Alike v w) : IsUnset v = IsUnset w :=
  eq_of_alike IsUnset (fun _ _ => rfl) (fun _ _ => rfl) h

theorem isNumber_eq (h : Option.Rel Alike v w) : IsNumber v = IsNumber w :=
  eq_of_alike IsNumber (fun _ _ => rfl) (fun _ _ => rfl) h

theorem isString_eq (h : Option.Rel Alike v w) : IsString v = IsString w :=
  eq_of_alike IsString (fun _ _ => rfl) (fun _ _ => rfl) h

theorem isFlag_eq (h : Option.Rel Alike v w) : IsFlag v = IsFlag w :=
  eq_of_alike IsFlag (fun _ _ => rfl) (fun _ _ => rfl) h

theorem integerFits_eq (h : Option.Rel Alike v w) : IntegerFits v = IntegerFits w :=
  eq_of_alike IntegerFits (fun _ _ => rfl) (fun _ _ => rfl) h

theorem numberOf_eq (h : Option.Rel Alike v w) : numberOf v = numberOf w :=
  eq_of_alike numberOf (fun _ _ => rfl) (fun _ _ => rfl) h

theorem stringOf_eq (h : Option.Rel Alike v w) : stringOf v = stringOf w :=
  eq_of_alike stringOf (fun _ _ => rfl) (fun _ _ => rfl) h

theorem flagOf_eq (h : Option.Rel Alike v w) : flagOf v = flagOf w :=
  eq_of_alike flagOf (fun _ _ => rfl) (fun _ _ => rfl) h

end Fields

/-- Objects with the same entries in any order. -/
def SameEntries (members members' : Members) : Prop := Alike (.object members) (.object members')

namespace SameEntries

variable {members members' : Members}

theorem get? (h : SameEntries members members') (key : Text) :
    Option.Rel Alike (members.get? key) (members'.get? key) := Alike.get? h key

theorem symm (h : SameEntries members members') : SameEntries members' members := Alike.symm h

/-- Of alike values, one is an object if the other is. -/
theorem exists_object {v : Json} (h : Alike (.object members) v) :
    ∃ members', v = .object members' ∧ SameEntries members members' := by
  cases v with
  | object members' => exact ⟨members', rfl, h⟩
  | _ => cases h.reordered

end SameEntries

theorem sameEntries_objectOf {v w : Json} (h : Alike v w) :
    SameEntries (objectOf v) (objectOf w) := by
  have hempty : SameEntries [] [] := ⟨⟨List.nodup_nil, trivial⟩, .refl _⟩
  obtain ⟨hd, hr⟩ := h
  cases hr with
  | null | bool | int | float | string | array => exact hempty
  | object each order => exact ⟨hd, .object each order⟩

theorem sameEntries_objectsOf {v w : Option Json} (h : Option.Rel Alike v w) :
    List.Forall₂ SameEntries (objectsOf v) (objectsOf w) := by
  cases h with
  | none => exact .nil
  | some h =>
    obtain ⟨hd, hr⟩ := h
    cases hr with
    | null | bool | int | float | string | object => exact .nil
    | array each =>
      have hitems := Alike.array_iff.mp ⟨hd, .array each⟩
      rw [objectsOf, objectsOf, List.forall₂_map_left_iff, List.forall₂_map_right_iff]
      exact hitems.imp fun _ _ => sameEntries_objectOf

/-! ### Shapes -/

section Mounts

variable {P : Members → Prop} {v w : Option Json}

theorem areMounts_of_alike (hP : ∀ xs ys, SameEntries xs ys → P xs → P ys)
    (h : Option.Rel Alike v w) (hv : AreMounts P v) : AreMounts P w := by
  cases h with
  | none => trivial
  | some h =>
    obtain ⟨hd, hr⟩ := h
    cases hr with
    | null | bool | int | float | string | object => exact hv
    | array each =>
      have hitems := Alike.array_iff.mp ⟨hd, .array each⟩
      intro item hm
      obtain ⟨source, hs, halike⟩ := exists_of_mem_forall₂ hitems hm
      obtain ⟨members, rfl, hmembers⟩ := hv source hs
      obtain ⟨members', rfl, hsame⟩ := SameEntries.exists_object halike
      exact ⟨members', rfl, hP members members' hsame hmembers⟩

theorem integersFit_of_same {keys : List Text} {members members' : Members}
    (h : SameEntries members members') (hf : IntegersFit keys members) :
    IntegersFit keys members' := by
  intro key hk
  rw [← integerFits_eq (h.get? key)]
  exact hf key hk

theorem mountIntegersFit_of_alike {keys : List Text} (h : Option.Rel Alike v w)
    (hv : MountIntegersFit keys v) : MountIntegersFit keys w := by
  cases h with
  | none => trivial
  | some h =>
    obtain ⟨hd, hr⟩ := h
    cases hr with
    | null | bool | int | float | string | object => trivial
    | array each =>
      have hitems := Alike.array_iff.mp ⟨hd, .array each⟩
      intro item hm members' hitem
      subst hitem
      obtain ⟨source, hs, halike⟩ := exists_of_mem_forall₂ hitems hm
      obtain ⟨members, rfl, hsame⟩ := SameEntries.exists_object halike.symm
      exact integersFit_of_same hsame.symm (hv _ hs members rfl)

end Mounts

section Templates

variable {members members' : Members} (h : SameEntries members members')
include h

theorem Turret.shaped_of_same (hs : Turret.Shaped members) : Turret.Shaped members' :=
  ⟨isNumber_eq (h.get? _) ▸ hs.angle, isNumber_eq (h.get? _) ▸ hs.side,
    isFlag_eq (h.get? _) ▸ hs.symmetrical, isString_eq (h.get? _) ▸ hs.reference⟩

theorem Armament.shaped_of_same (hs : Armament.Shaped members) : Armament.Shaped members' :=
  ⟨isUnset_eq (h.get? _) ▸ hs.turret, isNumber_eq (h.get? _) ▸ hs.angle,
    isNumber_eq (h.get? _) ▸ hs.side, isFlag_eq (h.get? _) ▸ hs.symmetrical⟩

theorem Sensor.shaped_of_same (hs : Sensor.Shaped members) : Sensor.Shaped members' :=
  ⟨isNumber_eq (h.get? _) ▸ hs.range⟩

theorem Template.shaped_of_same (hs : Template.Shaped members) : Template.Shaped members' where
  kind := isString_eq (h.get? _) ▸ hs.kind
  subtype := isString_eq (h.get? _) ▸ hs.subtype
  length := isNumber_eq (h.get? _) ▸ hs.length
  range := isNumber_eq (h.get? _) ▸ hs.range
  damage := isNumber_eq (h.get? _) ▸ hs.damage
  turrets := areMounts_of_alike (fun _ _ => Turret.shaped_of_same) (h.get? _) hs.turrets
  armaments := areMounts_of_alike (fun _ _ => Armament.shaped_of_same) (h.get? _) hs.armaments
  sensors := areMounts_of_alike (fun _ _ => Sensor.shaped_of_same) (h.get? _) hs.sensors

theorem Template.integersFit_of_same (hf : Template.IntegersFit members) :
    Template.IntegersFit members' where
  attributes := Authored.integersFit_of_same h hf.attributes
  turrets := mountIntegersFit_of_alike (h.get? _) hf.turrets
  armaments := mountIntegersFit_of_alike (h.get? _) hf.armaments
  sensors := mountIntegersFit_of_alike (h.get? _) hf.sensors

end Templates

theorem Table.shaped_of_alike {v w : Json} (h : Alike v w) (hs : Table.Shaped v) :
    Table.Shaped w := by
  cases v with
  | object members =>
    obtain ⟨members', rfl, hsame⟩ := SameEntries.exists_object h
    refine hsame.forall_values
      (P := fun v => ∃ template, v = .object template ∧ Template.Shaped template) ?_ hs
    intro x y hxy hx
    obtain ⟨template, rfl, ht⟩ := hx
    obtain ⟨template', rfl, hsame⟩ := SameEntries.exists_object hxy
    exact ⟨template', rfl, Template.shaped_of_same hsame ht⟩
  | _ => cases hs

theorem Table.integersFit_of_alike {v w : Json} (h : Alike v w) (hf : Table.IntegersFit v) :
    Table.IntegersFit w := by
  cases w with
  | object members' =>
    obtain ⟨members, rfl, hsame⟩ := SameEntries.exists_object h.symm
    refine hsame.symm.forall_values
      (P := fun v => ∀ template, v = .object template → Template.IntegersFit template) ?_ hf
    intro x y hxy hx template' hy
    subst hy
    obtain ⟨template, rfl, hsame⟩ := SameEntries.exists_object hxy.symm
    exact Template.integersFit_of_same hsame.symm (hx template rfl)
  | _ => trivial

/-! ### Meaning -/

/-- The same turret, but for the order of what is kept aside. -/
structure Turret.Alike (t t' : Turret) : Prop where
  fields : t' = { t with extra := t'.extra }
  extra : SameEntries t.extra t'.extra

structure Armament.Alike (a a' : Armament) : Prop where
  fields : a' = { a with extra := a'.extra }
  extra : SameEntries a.extra a'.extra

structure Sensor.Alike (s s' : Sensor) : Prop where
  fields : s' = { s with extra := s'.extra }
  extra : SameEntries s.extra s'.extra

/-- The same template, but for the order of what is kept aside in it and in its mounts. -/
structure Template.Alike (t t' : Template) : Prop where
  attributes : t' = { t with
    turrets := t'.turrets
    armaments := t'.armaments
    sensors := t'.sensors
    extra := t'.extra }
  turrets : List.Forall₂ Turret.Alike t.turrets t'.turrets
  armaments : List.Forall₂ Armament.Alike t.armaments t'.armaments
  sensors : List.Forall₂ Sensor.Alike t.sensors t'.sensors
  extra : SameEntries t.extra t'.extra

section Meaning

variable {members members' : Members} (h : SameEntries members members')
include h

theorem Turret.alike_meaning : (Turret.meaning members).Alike (Turret.meaning members') := by
  refine ⟨?_, h.without knownKeys⟩
  simp only [Turret.meaning, numberOf_eq (h.get? "angle"), numberOf_eq (h.get? "positionSide"),
    flagOf_eq (h.get? "symmetrical"), stringOf_eq (h.get? "type")]

theorem Armament.alike_meaning : (Armament.meaning members).Alike (Armament.meaning members') := by
  refine ⟨?_, h.without knownKeys⟩
  simp only [Armament.meaning, numberOf_eq (h.get? "angle"), numberOf_eq (h.get? "positionSide"),
    flagOf_eq (h.get? "symmetrical")]

theorem Sensor.alike_meaning : (Sensor.meaning members).Alike (Sensor.meaning members') := by
  refine ⟨?_, h.without knownKeys⟩
  simp only [Sensor.meaning, numberOf_eq (h.get? "range")]

theorem Template.alike_meaning :
    (Template.meaning members).Alike (Template.meaning members') := by
  have hmounts {α : Type} {R : α → α → Prop} {meaning : Members → α}
      (hmeaning : ∀ xs ys, SameEntries xs ys → R (meaning xs) (meaning ys)) (key : Text) :
      List.Forall₂ R ((objectsOf (members.get? key)).map meaning)
        ((objectsOf (members'.get? key)).map meaning) := by
    rw [List.forall₂_map_left_iff, List.forall₂_map_right_iff]
    exact (sameEntries_objectsOf (h.get? key)).imp hmeaning
  refine ⟨?_, hmounts (fun _ _ => Turret.alike_meaning) "turrets",
    hmounts (fun _ _ => Armament.alike_meaning) "armaments",
    hmounts (fun _ _ => Sensor.alike_meaning) "sensors", h.without knownKeys⟩
  simp only [Template.meaning, numberOf_eq (h.get? "length"), numberOf_eq (h.get? "range"),
    numberOf_eq (h.get? "damage"), stringOf_eq (h.get? "type"), stringOf_eq (h.get? "subtype")]

end Meaning

end EntityTable.Authored
