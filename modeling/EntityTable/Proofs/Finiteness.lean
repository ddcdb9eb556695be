import EntityTable.Proofs.Artifact.Integers
import EntityTable.Proofs.Recompilation
import EntityTable.Proofs.Storage.Writing

/-!
Which numbers of an artifact are not finite. Whatever is authored is finite, and so is all that is
made of it, but for the angles: one that is too great in degrees is infinite in radians.
-/

namespace EntityTable

open Binary64

/-! ### Numbers in rendered records -/

section Records

variable {x : Binary64} {extra : Entries Json}

theorem mem_nonFinite_putSome {α : Type} {toJson : α → Json} {value : Option α}
    {members : Entries Json} {key : Text}
    (h : x ∈ (Json.object (putSome key toJson value members)).nonFinite) :
    (∃ y ∈ value, x ∈ (toJson y).nonFinite) ∨ x ∈ (Json.object members).nonFinite := by
  cases value with
  | none => exact .inr h
  | some y =>
    rcases Json.mem_nonFinite_put h with hy | hm
    · exact .inl ⟨y, rfl, hy⟩
    · exact .inr hm

/-- A field without numbers adds none. -/
theorem mem_nonFinite_of_putSome {α : Type} {toJson : α → Json} {value : Option α}
    {members : Entries Json} {key : Text} (hnone : ∀ y ∈ value, (toJson y).nonFinite = [])
    (h : x ∈ (Json.object (putSome key toJson value members)).nonFinite) :
    x ∈ (Json.object members).nonFinite := by
  rcases mem_nonFinite_putSome h with ⟨y, hy, hx⟩ | hm
  · rw [hnone y hy] at hx
    cases hx
  · exact hm

theorem nonFinite_float {y : Binary64} (h : y.isFinite = true) : (Json.float y).nonFinite = [] := by
  rw [Json.nonFinite, if_pos h]

/-- The side of a mount and what is kept aside of it are finite. -/
structure FiniteMount (side : Binary64) (extra : Entries Json) : Prop where
  side : side.isFinite = true
  extra : (Json.object extra).nonFinite = []

theorem FiniteMount.mem_nonFinite {angle side : Binary64} (h : FiniteMount side extra)
    (hx : x ∈ (Json.object
      ((extra.put "angle" (.float angle)).put "positionSide" (.float side))).nonFinite) :
    x = angle ∧ x.isFinite = false := by
  rcases Json.mem_nonFinite_put hx with hs | hx
  · rw [nonFinite_float h.side] at hs
    cases hs
  rcases Json.mem_nonFinite_put hx with ha | he
  · obtain ⟨rfl, hangle⟩ := Json.mem_nonFinite_float.mp ha
    exact ⟨rfl, hangle⟩
  · rw [h.extra] at he
    cases he

end Records

namespace Template

/-- The angles of all turrets and armaments. -/
def angles (t : Template) : List Binary64 :=
  t.turrets.map (·.angle) ++ t.armaments.map (·.angle)

/-- All numbers of a template are finite, unless they are angles. -/
structure FiniteButAngles (t : Template) : Prop where
  length : ∀ y ∈ t.length, y.isFinite = true
  range : ∀ y ∈ t.range, y.isFinite = true
  damage : ∀ y ∈ t.damage, y.isFinite = true
  turrets : ∀ turret ∈ t.turrets, FiniteMount turret.side turret.extra
  armaments : ∀ armament ∈ t.armaments, FiniteMount armament.side armament.extra
  sensors : ∀ sensor ∈ t.sensors, (∀ y ∈ sensor.range, y.isFinite = true) ∧
    (Json.object sensor.extra).nonFinite = []
  extra : (Json.object t.extra).nonFinite = []

variable {t : Template} {x : Binary64}

theorem FiniteButAngles.not_mem_attributes (h : t.FiniteButAngles) :
    x ∉ (Json.object t.attributeMembers).nonFinite := by
  intro hx
  have hdamage := mem_nonFinite_of_putSome (fun y hy => nonFinite_float (h.damage y hy)) hx
  have hrange := mem_nonFinite_of_putSome (fun y hy => nonFinite_float (h.range y hy)) hdamage
  have hlength := mem_nonFinite_of_putSome (fun y hy => nonFinite_float (h.length y hy)) hrange
  have hsubtype := mem_nonFinite_of_putSome (fun _ _ => rfl) hlength
  have hkind := mem_nonFinite_of_putSome (fun _ _ => rfl) hsubtype
  rw [h.extra] at hkind
  cases hkind

/-- What is not finite in a rendered template is the angle of one of its mounts. -/
theorem FiniteButAngles.mem_nonFinite (h : t.FiniteButAngles) (hx : x ∈ t.toJson.nonFinite) :
    x ∈ t.angles ∧ x.isFinite = false := by
  -- the lists come off in the reverse of the order in which rendering puts them
  rcases Json.mem_nonFinite_put hx with hsensors | hx
  · obtain ⟨v, hv, hx⟩ := Json.mem_nonFinite_array.mp hsensors
    obtain ⟨sensor, hs, rfl⟩ := List.mem_map.mp hv
    obtain ⟨hrange, hextra⟩ := h.sensors sensor hs
    have hrest := mem_nonFinite_of_putSome (fun y hy => nonFinite_float (hrange y hy)) hx
    rw [hextra] at hrest
    cases hrest
  rcases Json.mem_nonFinite_put hx with harmaments | hx
  · obtain ⟨v, hv, hx⟩ := Json.mem_nonFinite_array.mp harmaments
    obtain ⟨armament, ha, rfl⟩ := List.mem_map.mp hv
    have hmount := mem_nonFinite_of_putSome (fun _ _ => rfl) hx
    obtain ⟨rfl, hangle⟩ := (h.armaments armament ha).mem_nonFinite hmount
    exact ⟨List.mem_append_right _ (List.mem_map_of_mem ha), hangle⟩
  rcases Json.mem_nonFinite_put hx with hturrets | hx
  · obtain ⟨v, hv, hx⟩ := Json.mem_nonFinite_array.mp hturrets
    obtain ⟨turret, ht, rfl⟩ := List.mem_map.mp hv
    have hmount := mem_nonFinite_of_putSome (fun _ _ => rfl) hx
    obtain ⟨rfl, hangle⟩ := (h.turrets turret ht).mem_nonFinite hmount
    exact ⟨List.mem_append_left _ (List.mem_map_of_mem ht), hangle⟩
  · exact absurd hx h.not_mem_attributes

end Template

namespace Table

variable {table : Table} {x : Binary64}

theorem mem_angles {entry : Text × Template} (he : entry ∈ table) (hx : x ∈ entry.2.angles) :
    x ∈ table.toJson.angles := by
  rcases List.mem_append.mp hx with ht | ha
  · obtain ⟨turret, hm, rfl⟩ := List.mem_map.mp ht
    exact angle_mem_of_turret he hm
  · obtain ⟨armament, hm, rfl⟩ := List.mem_map.mp ha
    exact angle_mem_of_armament he hm

theorem mem_nonFinite (h : ∀ entry ∈ table, entry.2.FiniteButAngles)
    (hx : x ∈ table.toJson.nonFinite) :
    ∃ entry ∈ table, x ∈ entry.2.angles ∧ x.isFinite = false := by
  obtain ⟨rendered, hm, hx⟩ := Json.mem_nonFinite_object.mp hx
  obtain ⟨entry, he, rfl⟩ := List.mem_map.mp hm
  exact ⟨entry, he, (h entry he).mem_nonFinite hx⟩

end Table

/-- The angles are among the numbers of an artifact. -/
theorem Json.mem_nonFinite_of_mem_angles {artifact : Json} {x : Binary64}
    (h : x ∈ artifact.angles) (hx : x.isFinite = false) : x ∈ artifact.nonFinite := by
  have hobject {v : Json} (hv : x ∈ (Json.object (Authored.objectOf v)).nonFinite) :
      x ∈ v.nonFinite := by
    cases v with
    | object members => exact hv
    | _ =>
      obtain ⟨entry, he, -⟩ := Json.mem_nonFinite_object.mp hv
      cases he
  -- from the inside out: the mount, its list, the template, the table
  obtain ⟨entry, he, hm⟩ := List.mem_flatMap.mp h
  obtain ⟨mount, hmount, hangle⟩ := List.mem_filterMap.mp hm
  have hin : x ∈ (Json.object mount).nonFinite := by
    unfold Json.angle? at hangle
    split at hangle
    · next y hy =>
      obtain rfl := Option.some.inj hangle
      exact Json.mem_nonFinite_of_get? hy (Json.mem_nonFinite_float.mpr ⟨rfl, hx⟩)
    · cases hangle
  have hlisted {list : MountList} (hl : mount ∈ entry.2.mounts list) : x ∈ entry.2.nonFinite := by
    apply hobject
    unfold Json.mounts Authored.objectsOf at hl
    split at hl
    · next items hitems =>
      obtain ⟨item, hi, rfl⟩ := List.mem_map.mp hl
      exact Json.mem_nonFinite_of_get? hitems (Json.mem_nonFinite_array.mpr ⟨item, hi, hobject hin⟩)
    · cases hl
  apply hobject
  refine Json.mem_nonFinite_object.mpr ⟨entry, he, ?_⟩
  rcases List.mem_append.mp hmount with ht | ha
  · exact hlisted ht
  · exact hlisted ha

/-! ### From the authored table -/

namespace Authored

namespace Template

/-- The angles of all turrets and armaments, in degrees. -/
def angles (t : Template) : List Binary64 :=
  t.turrets.map (·.angle) ++ t.armaments.map (·.angle)

/-- No NaN and no infinity is in a field that is kept aside, of the template or of its mounts. -/
structure AsideFinite (t : Template) : Prop where
  extra : (Json.object t.extra).nonFinite = []
  turrets : ∀ turret ∈ t.turrets, (Json.object turret.extra).nonFinite = []
  armaments : ∀ armament ∈ t.armaments, (Json.object armament.extra).nonFinite = []
  sensors : ∀ sensor ∈ t.sensors, (Json.object sensor.extra).nonFinite = []

variable {t : Template} {owner : Text} {compiled : EntityTable.Template}

theorem Sound.isFinite_of_mem_angles (h : t.Sound) {angle : Binary64} (ha : angle ∈ t.angles) :
    angle.isFinite = true := by
  rcases List.mem_append.mp ha with ht | hm
  · obtain ⟨turret, hturret, rfl⟩ := List.mem_map.mp ht
    exact (h.turrets turret hturret).angle
  · obtain ⟨armament, harmament, rfl⟩ := List.mem_map.mp hm
    exact (h.armaments armament harmament).angle

theorem finiteButAngles_of_compile (h : t.Sound) (haside : t.AsideFinite)
    (hc : (t.compile owner).outcome = .ok compiled) : compiled.FiniteButAngles := by
  rw [outcome_compile] at hc
  obtain ⟨range, hrange, hc⟩ := bind_eq_ok_iff.mp hc
  obtain ⟨damage, hdamage, rfl⟩ := map_eq_ok_iff.mp hc
  have hceiling : sensorRangeCeiling.isFinite = true := by decide +kernel
  refine ⟨h.length, isFinite_of_deriveRange h.length h.range hrange,
    isFinite_of_deriveDamage h.length h.damage hdamage, ?_, ?_, ?_, haside.extra⟩
  · intro turret ht
    obtain ⟨authored, ha, hm⟩ := List.mem_flatMap.mp ht
    refine ⟨(Turret.isCopy_of_mem_expand hm).side_isFinite (h.turrets authored ha).side, ?_⟩
    rw [Turret.extra_of_mem_expand hm]
    exact haside.turrets authored ha
  · intro armament ha
    obtain ⟨authored, hauthored, hm⟩ := List.mem_flatMap.mp ha
    refine ⟨(Armament.isCopy_of_mem_expand hm).side_isFinite
      (h.armaments authored hauthored).side, ?_⟩
    rw [(Armament.extra_of_mem_expand hm).1]
    exact haside.armaments authored hauthored
  · intro sensor hs
    obtain ⟨authored, ha, rfl⟩ := List.mem_map.mp hs
    refine ⟨?_, haside.sensors authored ha⟩
    intro y hy
    obtain ⟨z, hz, rfl⟩ := Option.map_eq_some_iff.mp hy
    exact min_isFinite ((h.sensors authored ha).range z hz) hceiling

/-- Every angle is that of an authored mount in radians, or the opposite of it. -/
theorem exists_angle_of_compile (hc : (t.compile owner).outcome = .ok compiled) {x : Binary64}
    (hx : x ∈ compiled.angles) :
    ∃ angle ∈ t.angles, x = degreesToRadians angle ∨ x = (degreesToRadians angle).opposite := by
  obtain ⟨hturrets, harmaments⟩ := mounts_of_compile hc
  rcases List.mem_append.mp hx with hm | hm
  · obtain ⟨mounted, ht, rfl⟩ := List.mem_map.mp hm
    rw [hturrets] at ht
    obtain ⟨authored, ha, hexpand⟩ := List.mem_flatMap.mp ht
    exact ⟨authored.angle, List.mem_append_left _ (List.mem_map_of_mem ha),
      (Turret.isCopy_of_mem_expand hexpand).imp And.left And.left⟩
  · obtain ⟨mounted, ht, rfl⟩ := List.mem_map.mp hm
    rw [harmaments] at ht
    obtain ⟨authored, ha, hexpand⟩ := List.mem_flatMap.mp ht
    exact ⟨authored.angle, List.mem_append_right _ (List.mem_map_of_mem ha),
      (Armament.isCopy_of_mem_expand hexpand).imp And.left And.left⟩

theorem angle_mem_of_compile (hc : (t.compile owner).outcome = .ok compiled) {angle : Binary64}
    (h : angle ∈ t.angles) : degreesToRadians angle ∈ compiled.angles := by
  obtain ⟨hturrets, harmaments⟩ := mounts_of_compile hc
  rcases List.mem_append.mp h with hm | hm
  · obtain ⟨authored, ha, rfl⟩ := List.mem_map.mp hm
    have hmounted : authored.mounted ∈ compiled.turrets :=
      hturrets ▸ List.mem_flatMap.mpr ⟨authored, ha, Turret.mem_expand_iff.mpr (.inl rfl)⟩
    exact List.mem_append_left _ (List.mem_map_of_mem hmounted)
  · obtain ⟨authored, ha, rfl⟩ := List.mem_map.mp hm
    have hmounted : authored.mounted ∈ compiled.armaments :=
      harmaments ▸ List.mem_flatMap.mpr ⟨authored, ha, Armament.mem_expand_iff.mpr (.inl rfl)⟩
    exact List.mem_append_right _ (List.mem_map_of_mem hmounted)

end Template
end Authored

namespace Table

variable {table : Table}
  (hcollected : ∀ entry ∈ table, ∃ armaments, table.collect [] entry.1 = .ok armaments)
include hcollected

/-- Inherited armaments differ from own ones in their index only. -/
theorem exists_own_of_mem_full {entry : Text × Template} (he : entry ∈ table) {a : Armament}
    (ha : a ∈ table.full entry.1) : ∃ source ∈ table, ∃ own ∈ source.2.armaments,
      a.angle = own.angle ∧ a.side = own.side ∧ a.extra = own.extra := by
  obtain ⟨armaments, hc⟩ := hcollected entry he
  obtain ⟨key, template, ht, own, hown, hcopy⟩ := mem_full hc ha
  refine ⟨(key, template), Entries.mem_of_get? ht, own, hown, ?_⟩
  rcases hcopy with rfl | ⟨i, rfl⟩ <;> exact ⟨rfl, rfl, rfl⟩

theorem finiteButAngles_outfitted (h : ∀ entry ∈ table, entry.2.FiniteButAngles) :
    ∀ entry ∈ table.outfitted, entry.2.FiniteButAngles := by
  intro entry he
  obtain ⟨original, ho, rfl⟩ := List.mem_map.mp he
  have hf := h original ho
  refine ⟨hf.length, hf.range, hf.damage, hf.turrets, ?_, hf.sensors, hf.extra⟩
  intro armament ha
  obtain ⟨source, hs, own, hown, -, hside, hextra⟩ := exists_own_of_mem_full hcollected ho ha
  rw [hside, hextra]
  exact (h source hs).armaments own hown

theorem exists_angle_of_outfitted {entry : Text × Template} (he : entry ∈ table.outfitted)
    {x : Binary64} (hx : x ∈ entry.2.angles) : ∃ source ∈ table, x ∈ source.2.angles := by
  obtain ⟨original, ho, rfl⟩ := List.mem_map.mp he
  rcases List.mem_append.mp hx with ht | ha
  · exact ⟨original, ho, List.mem_append_left _ ht⟩
  · obtain ⟨armament, hm, rfl⟩ := List.mem_map.mp ha
    obtain ⟨source, hs, own, hown, hangle, -⟩ := exists_own_of_mem_full hcollected ho hm
    refine ⟨source, hs, List.mem_append_right _ ?_⟩
    show armament.angle ∈ _
    rw [hangle]
    exact List.mem_map_of_mem hown

theorem angle_mem_outfitted (hn : table.keys.Nodup) {entry : Text × Template} (he : entry ∈ table)
    {x : Binary64} (hx : x ∈ entry.2.angles) : x ∈ table.outfitted.toJson.angles := by
  have houtfitted : (entry.1, { entry.2 with armaments := table.full entry.1 }) ∈
      table.outfitted := List.mem_map_of_mem he
  refine mem_angles houtfitted ?_
  rcases List.mem_append.mp hx with ht | ha
  · exact List.mem_append_left _ ht
  · obtain ⟨armament, hm, rfl⟩ := List.mem_map.mp ha
    refine List.mem_append_right _ (List.mem_map_of_mem ?_)
    rw [full_eq_append_of_mem hn hcollected he]
    exact List.mem_append_left _ hm

end Table

section Artifact

variable {members : Entries Json} {normalized : Table} (hs : Stages members normalized)
  (haside : ∀ source ∈ Authored.Table.meaning members, source.2.AsideFinite)
include hs haside

/-- What is not finite in the artifact is an angle that was too great in degrees. -/
theorem Stages.exists_angle_of_mem_nonFinite {x : Binary64}
    (hx : x ∈ normalized.outfitted.toJson.nonFinite) :
    x ∈ normalized.outfitted.toJson.angles ∧ ∃ source ∈ Authored.Table.meaning members,
      ∃ angle ∈ source.2.angles, ¬angle.Within turnableRank := by
  have hsound := Authored.Table.sound_of_ofJson hs.read
  have hfinite : ∀ entry ∈ normalized, entry.2.FiniteButAngles := by
    intro entry he
    obtain ⟨source, hm, -, hc⟩ := hs.exists_source he
    exact Authored.Template.finiteButAngles_of_compile (hsound source hm) (haside source hm) hc
  obtain ⟨entry, he, hangle, hinfinite⟩ :=
    Table.mem_nonFinite (Table.finiteButAngles_outfitted hs.collected hfinite) hx
  refine ⟨Table.mem_angles he hangle, ?_⟩
  obtain ⟨original, ho, hoangle⟩ := Table.exists_angle_of_outfitted hs.collected he hangle
  obtain ⟨source, hm, -, hc⟩ := hs.exists_source ho
  obtain ⟨angle, ha, hcopy⟩ := Authored.Template.exists_angle_of_compile hc hoangle
  refine ⟨source, hm, angle, ha, fun hwithin => ?_⟩
  have hturned : (degreesToRadians angle).isFinite = true :=
    (degreesToRadians_isFinite_iff ((hsound source hm).isFinite_of_mem_angles ha)).mpr hwithin
  have hx : x.isFinite = true := by
    rcases hcopy with rfl | rfl
    · exact hturned
    · exact opposite_isFinite_iff.mpr hturned
  rw [hx] at hinfinite
  cases hinfinite

end Artifact

/-- An angle that is too great in degrees is not finite in the artifact. -/
theorem Stages.mem_nonFinite_of_angle {members : Entries Json} {normalized : Table}
    (hs : Stages members normalized) (hn : normalized.keys.Nodup)
    {source : Text × Authored.Template} (h : source ∈ Authored.Table.meaning members)
    {angle : Binary64} (ha : angle ∈ source.2.angles) (hgreat : ¬angle.Within turnableRank) :
    degreesToRadians angle ∈ normalized.outfitted.toJson.nonFinite := by
  have hfinite : angle.isFinite = true :=
    (Authored.Table.sound_of_ofJson hs.read source h).isFinite_of_mem_angles ha
  have hinfinite : (degreesToRadians angle).isFinite = false := by
    rw [← Bool.not_eq_true, degreesToRadians_isFinite_iff hfinite]
    exact hgreat
  obtain ⟨entry, he, -, hc⟩ := hs.exists_compiled h
  have hangle := Authored.Template.angle_mem_of_compile hc ha
  exact Json.mem_nonFinite_of_mem_angles
    (Table.angle_mem_outfitted hs.collected hn he hangle) hinfinite

/-! ### Writing -/

namespace Storage

/-- The failures to write a value that are for a number that is none, or for want of items. -/
def Failure.OfValue : Failure → Prop
  | .notFinite .. | .noLength _ => True
  | _ => False

variable {memory : Memory} {tree : FileTree} {target : Path} {format : Format} {failure : Failure}

/-- An object is refused for a number in it, or for something other than its value. -/
theorem unwritable_or_of_writeJson {members : Entries Json}
    (h : (writeJson memory tree target format (.object members)).result.outcome =
      .error failure) :
    Unwritable target (.object members) failure ∨
      ¬failure.OfValue ∧ ∀ path, failure ≠ .tooManyDigits path := by
  cases hmade : tree.makeTemporary target with
  | error fault =>
    rw [writeJson_of_not_made hmade] at h
    obtain rfl := Except.error.inj h
    cases fault <;> exact .inr ⟨id, nofun⟩
  | ok made =>
    have hends := replaceArtifact_replaceEnds memory made.2 made.1 target format (.object members)
    rw [← (writeJson_of_made hmade memory format members).2, h] at hends
    generalize (replaceArtifact memory made.2 made.1 target format (.object members)).1 = left
      at hends
    have hline (why : Unindentable memory format (.object members) failure) :
        ¬failure.OfValue ∧ ∀ path, failure ≠ .tooManyDigits path := by
      cases why <;> exact ⟨id, nofun⟩
    cases hends with
    | unmoved => exact .inr ⟨id, nofun⟩
    | removed why => exact .inl why
    | left why => exact .inr (hline why)
    | untouched why => exact .inr (hline why)

/-- An object of finite numbers is refused for an integer that is too long, if for its value. -/
theorem not_ofValue_of_writeJson {members : Entries Json}
    (hfinite : (Json.object members).nonFinite = [])
    (h : (writeJson memory tree target format (.object members)).result.outcome =
      .error failure) :
    ¬failure.OfValue ∧ ∀ path, failure = .tooManyDigits path →
      ¬(Json.object members).Throughout Json.ShortInteger := by
  rcases unwritable_or_of_writeJson h with hvalue | ⟨hother, hdigits⟩
  · cases hvalue with
    | notFinite hx => simp [hfinite] at hx
    | tooManyDigits hlong => exact ⟨id, fun _ _ => hlong⟩
  · exact ⟨hother, fun path heq => absurd heq (hdigits path)⟩

end Storage

/-- All numbers of an artifact are finite, exactly if no authored angle is too great, and then the
artifact is written unless something other than its value is in the way. An integer of too many
digits is in the way only if one is authored, or if so many turrets are. -/
theorem compile_finite_iff (members : Entries Json) (output : Json)
    (hd : (Json.object members).KeysDistinct)
    (haside : ∀ source ∈ Authored.Table.meaning members, source.2.AsideFinite)
    (h : (compile (.object members)).outcome = .ok output) :
    (∀ x ∈ output.nonFinite, x ∈ output.angles) ∧
      (output.nonFinite = [] ↔ ∀ source ∈ Authored.Table.meaning members,
        ∀ angle ∈ source.2.angles, angle.Within turnableRank) ∧
      (output.nonFinite = [] → ∀ (memory : Memory) (tree : FileTree) (target : Path)
        (format : Storage.Format) (failure : Storage.Failure),
        (Storage.writeJson memory tree target format output).result.outcome = .error failure →
          ¬failure.OfValue ∧ ∀ path, failure = .tooManyDigits path →
            (Json.object members).Throughout Json.ShortInteger →
              ∃ source ∈ Authored.Table.meaning members,
                10 ^ Text.maxIntegerDigits < 2 * source.2.turrets.length) := by
  obtain ⟨_, normalized, heq, hs, houtput⟩ := compile_eq_ok_iff.mp h
  obtain rfl := Json.object.inj heq
  have hrendered : output = normalized.outfitted.toJson := by
    rw [houtput, ← Table.toJson_attached]
    rfl
  have hn : normalized.keys.Nodup := hs.keys_eq ▸ hd.keys_nodup
  refine ⟨?_, ⟨?_, ?_⟩, ?_⟩
  · intro x hx
    rw [hrendered] at hx ⊢
    exact (hs.exists_angle_of_mem_nonFinite haside hx).1
  · intro hfinite source hm angle ha
    by_contra hgreat
    have hx := hs.mem_nonFinite_of_angle hn hm ha hgreat
    rw [← hrendered, hfinite] at hx
    cases hx
  · intro hwithin
    rw [List.eq_nil_iff_forall_not_mem]
    intro x hx
    rw [hrendered] at hx
    obtain ⟨-, source, hm, angle, ha, hgreat⟩ := hs.exists_angle_of_mem_nonFinite haside hx
    exact hgreat (hwithin source hm angle ha)
  · intro hfinite memory tree target format failure hfails
    rw [houtput] at hfinite hfails
    obtain ⟨hvalue, hdigits⟩ := Storage.not_ofValue_of_writeJson hfinite hfails
    refine ⟨hvalue, fun path hpath hshort => ?_⟩
    by_contra hfew
    push Not at hfew
    exact hdigits path hpath (hs.shortInteger hn hshort hfew)

/-- A turret at a finite angle, whose product with π is not. -/
def overturned : Entries Json :=
  [("m", .object [("turrets", .array [.object [("angle", .float 1e308)]])])]

theorem overturned_keysDistinct : (Json.object overturned).KeysDistinct := by
  simp only [overturned, Json.KeysDistinct, Json.MembersDistinct, Json.ItemsDistinct,
    Entries.keys, and_true]
  decide

theorem overturned_asideFinite :
    ∀ source ∈ Authored.Table.meaning overturned, source.2.AsideFinite := by
  intro source hm
  obtain rfl := List.mem_singleton.mp hm
  exact ⟨rfl, by decide +kernel, by decide +kernel, by decide +kernel⟩

theorem nonFinite_overturned : ∃ output, (compile (.object overturned)).outcome = .ok output ∧
    output.nonFinite = [infinity false] := by
  have h : (compile (.object overturned)).outcome.toOption.map Json.nonFinite =
      some [infinity false] := by decide +kernel
  cases hc : (compile (.object overturned)).outcome with
  | error e => rw [hc] at h; cases h
  | ok output =>
    rw [hc] at h
    exact ⟨output, rfl, Option.some.inj h⟩

/-- The infinity is an angle, and the turret's angle is too great. -/
theorem compile_overturned : (Json.object overturned).KeysDistinct ∧
    (∀ source ∈ Authored.Table.meaning overturned, source.2.AsideFinite) ∧
    ∃ output, (compile (.object overturned)).outcome = .ok output ∧
      infinity false ∈ output.angles ∧
      ¬∀ source ∈ Authored.Table.meaning overturned,
        ∀ angle ∈ source.2.angles, angle.Within turnableRank := by
  obtain ⟨output, h, hinfinite⟩ := nonFinite_overturned
  obtain ⟨hangles, hiff, -⟩ :=
    compile_finite_iff overturned output overturned_keysDistinct overturned_asideFinite h
  refine ⟨overturned_keysDistinct, overturned_asideFinite, output, h,
    hangles _ (hinfinite ▸ List.mem_singleton_self _), fun hwithin => ?_⟩
  cases hinfinite.symm.trans (hiff.mpr hwithin)

/-- Finite input need not give finite output. -/
theorem compile_overturned_infinite : ¬∀ (members : Entries Json) (output : Json),
    (Json.object members).KeysDistinct →
      (∀ source ∈ Authored.Table.meaning members, source.2.AsideFinite) →
        (compile (.object members)).outcome = .ok output → output.nonFinite = [] := by
  intro hall
  obtain ⟨output, h, hinfinite⟩ := nonFinite_overturned
  have hnone := hall overturned output overturned_keysDistinct overturned_asideFinite h
  cases hinfinite.symm.trans hnone

end EntityTable
