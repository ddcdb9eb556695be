import EntityTable.Proofs.Artifact.Symmetry
import EntityTable.Proofs.Json.SignedZero

/-!
Pairs on the centerline, whose two halves are in the same place. They read the same in the artifact
exactly if no zero of the mount has a sign, because only the mirror image is freed of it; armaments
that are handed on have the zeros of the one they are copies of.
-/

namespace EntityTable

open Authored (standsForPair angleOf sideOf objectsOf stringOf)

/-- A pair of which both halves are on the centerline. -/
structure Centred (mount : Entries Json) : Prop where
  paired : standsForPair mount = true
  angle : (angleOf mount).eq 0 = true
  side : (sideOf mount).eq 0 = true

/-- Neither the angle in radians nor the side is a zero with a sign. -/
def Unsigned (mount : Entries Json) : Prop :=
  angleOf mount ≠ .zero true ∧ sideOf mount ≠ .zero true

/-- A mount between the fields kept aside and those that not every mount has. -/
def mountObject (aside others : Entries Json) (angle side : Binary64) : Entries Json :=
  aside ++ (("angle" : Text), Json.float angle) :: ("positionSide", .float side) :: others

section Mounts

variable {aside others : Entries Json} {angle side : Binary64}

theorem avoidsNegativeZero_mountObject_iff :
    (Json.object (mountObject aside others angle side)).AvoidsNegativeZero ↔
      (angle ≠ .zero true ∧ side ≠ .zero true) ∧
        (Json.object aside).AvoidsNegativeZero ∧ (Json.object others).AvoidsNegativeZero := by
  simp only [mountObject, Json.AvoidsNegativeZero.append_iff, Json.AvoidsNegativeZero.cons_iff,
    Json.AvoidsNegativeZero.float_iff]
  tauto

/-- With two zeros, the text is that of plain ones exactly if neither has a sign. -/
theorem render_mountObject_eq_iff (ha : angle.eq 0 = true) (hs : side.eq 0 = true)
    (layout : Json.Layout) (level : Nat) :
    (Json.object (mountObject aside others angle side)).render layout level =
        (Json.object (mountObject aside others 0 0)).render layout level ↔
      angle ≠ .zero true ∧ side ≠ .zero true := by
  obtain ⟨s, rfl⟩ := Binary64.eq_zero_iff.mp ha
  obtain ⟨t, rfl⟩ := Binary64.eq_zero_iff.mp hs
  have hplain (negative : Bool) : Binary64.zero negative ≠ .zero true ↔ negative = false := by
    cases negative <;> decide
  have hzero : (0 : Binary64) = .zero false := Binary64.zero_eq
  rw [hzero, hplain, hplain]
  constructor
  · intro h
    have hkeys : Entries.keys (mountObject aside others (.zero s) (.zero t)) =
        Entries.keys (mountObject aside others (.zero false) (.zero false)) := by
      simp [mountObject, Entries.keys]
    have hsum := Json.sum_length_of_render_eq hkeys h
    simp only [mountObject, List.map_append, List.map_cons, List.sum_append, List.sum_cons,
      Json.length_render_zero, Bool.toNat_false] at hsum
    exact ⟨Bool.toNat_eq_zero.mp (by omega), Bool.toNat_eq_zero.mp (by omega)⟩
  · rintro ⟨rfl, rfl⟩
    rfl

end Mounts

/-- The two entries of a mount on the centerline. -/
structure OnCenterline (known : List Text) (mount own mirror : Entries Json) : Prop where
  text : ∀ layout level, (Json.object own).render layout level =
    (Json.object mirror).render layout level ↔ Unsigned mount
  own : (Json.object own).AvoidsNegativeZero ↔
    Unsigned mount ∧ (Json.object (mount.without known)).AvoidsNegativeZero
  mirror : (Json.object mirror).AvoidsNegativeZero ↔
    (Json.object (mount.without known)).AvoidsNegativeZero

theorem Centred.onCenterline {mount others : Entries Json} {known : List Text} (h : Centred mount)
    (hothers : (Json.object others).AvoidsNegativeZero) :
    OnCenterline known mount
      (mountObject (mount.without known) others (angleOf mount) (sideOf mount))
      (mountObject (mount.without known) others (angleOf mount).opposite
        (sideOf mount).opposite) := by
  have hplain : (0 : Binary64) ≠ .zero true := by decide +kernel
  rw [Binary64.opposite_of_zero h.angle, Binary64.opposite_of_zero h.side]
  constructor
  case text => exact render_mountObject_eq_iff h.angle h.side
  case own => simp [avoidsNegativeZero_mountObject_iff, hothers, Unsigned]
  case mirror => simp [avoidsNegativeZero_mountObject_iff, hothers, hplain]

theorem Centred.onCenterline_turret {mount : Entries Json} (h : Centred mount) :
    OnCenterline Authored.Turret.knownKeys mount
      (Authored.turretObject (angleOf mount) (sideOf mount) mount)
      (Authored.turretObject (angleOf mount).opposite (sideOf mount).opposite mount) := by
  have hobject (angle side : Binary64) : Authored.turretObject angle side mount =
      mountObject (mount.without Authored.Turret.knownKeys)
        (setMembers [("type", (stringOf (mount.get? "type")).map .string)]) angle side := rfl
  rw [hobject, hobject]
  refine h.onCenterline (Json.AvoidsNegativeZero.object_iff.mpr ?_)
  cases stringOf (mount.get? "type") with
  | none => exact List.forall_mem_nil _
  | some reference => exact List.forall_mem_singleton.mpr (Json.AvoidsNegativeZero.string reference)

theorem Centred.onCenterline_armament {mount : Entries Json} (h : Centred mount) :
    OnCenterline Authored.Armament.knownKeys mount
      (Authored.armamentObject (angleOf mount) (sideOf mount) mount)
      (Authored.armamentObject (angleOf mount).opposite (sideOf mount).opposite mount) := by
  have hobject (angle side : Binary64) : Authored.armamentObject angle side mount =
      mountObject (mount.without Authored.Armament.knownKeys) [] angle side := rfl
  rw [hobject, hobject]
  exact h.onCenterline (Json.AvoidsNegativeZero.object_iff.mpr (List.forall_mem_nil _))

/-! ### Copies -/

theorem marked_marked (i j : Nat) (armament : Entries Json) :
    marked j (marked i armament) = marked j armament := by
  simp [marked, setMembers, Entries.without]

theorem avoidsNegativeZero_marked_iff {armament : Entries Json}
    (h : ("turret" : Text) ∉ armament.keys) (index : Nat) :
    (Json.object (marked index armament)).AvoidsNegativeZero ↔
      (Json.object armament).AvoidsNegativeZero := by
  rw [marked, Entries.without_of_not_mem h, Json.AvoidsNegativeZero.append_iff]
  refine and_iff_left ?_
  exact Json.AvoidsNegativeZero.object_iff.mpr
    (List.forall_mem_singleton.mpr (Json.AvoidsNegativeZero.int index))

theorem armamentsBehind_of_get? {table : Entries Json} {key : Text} {template : Json}
    (h : table.get? key = some template) :
    armamentsBehind table (some key) = template.mounts .armaments := by
  rw [armamentsBehind, Option.bind_some, h]

/-- A turret with a type brings in each armament of the template it names. -/
theorem LaidOut.marked_mem {table : Entries Json} {owner target : Text}
    {authored compiled copy turret : Entries Json} {turrets armaments sensors : List (Entries Json)}
    {index : Nat} (h : LaidOut table owner authored compiled turrets armaments sensors)
    (hturret : turrets[index]? = some turret) (htype : turret.get? "type" = some (.string target))
    (hcopy : copy ∈ armamentsBehind table (some target)) : marked index copy ∈ armaments := by
  rw [h.armaments_eq]
  refine List.mem_append_right _ (List.mem_flatMap.mpr
    ⟨(turret, index), List.mem_zipIdx_iff_getElem?.mpr hturret, ?_⟩)
  show marked index copy ∈
    (armamentsBehind table (stringOf (turret.get? "type"))).map (marked index)
  rw [Authored.stringOf_eq_some_iff.mpr htype]
  exact List.mem_map_of_mem hcopy

/-- An armament of a template, and the copies of it in the templates that inherit it, from this one
or from another that has. -/
inductive HandedOn (table : Entries Json) (source : Text) (armament : Entries Json) :
    Text → Entries Json → Prop
  | own : HandedOn table source armament source armament
  | carried {via key : Text} {copy turret : Entries Json} {template : Json} {index : Nat}
      (h : HandedOn table source armament via copy) (ht : table.get? key = some template)
      (hturret : (template.mounts .turrets)[index]? = some turret)
      (htype : turret.get? "type" = some (.string via)) :
      HandedOn table source armament key (marked index copy)

namespace HandedOn

variable {table : Entries Json} {source key : Text} {armament copy : Entries Json}

theorem eq_or_marked (h : HandedOn table source armament key copy) :
    copy = armament ∨ ∃ index, copy = marked index armament := by
  induction h with
  | own => exact .inl rfl
  | @carried via key copy turret template index _ _ _ _ ih =>
    rcases ih with rfl | ⟨i, rfl⟩
    · exact .inr ⟨index, rfl⟩
    · exact .inr ⟨index, marked_marked i index armament⟩

theorem avoidsNegativeZero_iff (h : HandedOn table source armament key copy)
    (hnew : ("turret" : Text) ∉ armament.keys) :
    (Json.object copy).AvoidsNegativeZero ↔ (Json.object armament).AvoidsNegativeZero := by
  rcases h.eq_or_marked with rfl | ⟨index, rfl⟩
  · exact Iff.rfl
  · exact avoidsNegativeZero_marked_iff hnew index

/-- Copies stand in the templates that inherit them. -/
theorem mem_armamentsBehind (h : HandedOn table source armament key copy)
    (hall : ∀ key template, table.get? key = some template →
      ∃ owner authored compiled sensors, LaidOut table owner authored compiled
        (template.mounts .turrets) (template.mounts .armaments) sensors)
    (hown : armament ∈ armamentsBehind table (some source)) :
    copy ∈ armamentsBehind table (some key) := by
  induction h with
  | own => exact hown
  | @carried via key copy turret template index _ ht hturret htype ih =>
    obtain ⟨owner, authored, compiled, sensors, hlaid⟩ := hall key template ht
    rw [armamentsBehind_of_get? ht]
    exact hlaid.marked_mem hturret htype ih

end HandedOn

/-! ### The artifact -/

/-- The halves of a pair, one behind the other. -/
structure PairAt (entries : List (Entries Json)) (place : Nat) (own mirror : Entries Json) :
    Prop where
  own : entries[place]? = some own
  mirror : entries[place + 1]? = some mirror

theorem pairAt_copies (object : Binary64 → Binary64 → Entries Json → Entries Json)
    {mounts : List (Entries Json)} {index : Nat} {mount : Entries Json}
    (h : mounts[index]? = some mount) (hpair : standsForPair mount = true) :
    PairAt (mounts.flatMap (Authored.copies object)) (placeAmong standsForPair mounts index)
      (object (angleOf mount) (sideOf mount) mount)
      (object (angleOf mount).opposite (sideOf mount).opposite mount) :=
  have hexpands := expands_flatMap mounts
  ⟨hexpands.own index mount h, hexpands.mirrored index mount h hpair⟩

theorem PairAt.append {entries : List (Entries Json)} {place : Nat} {own mirror : Entries Json}
    (h : PairAt entries place own mirror) (behind : List (Entries Json)) :
    PairAt (entries ++ behind) place own mirror := by
  have hlast : place + 1 < entries.length := (List.getElem?_eq_some_iff.mp h.mirror).1
  constructor
  · rw [List.getElem?_append_left (Nat.lt_of_succ_lt hlast), h.own]
  · rw [List.getElem?_append_left hlast, h.mirror]

section Lists

variable {table : Entries Json} {owner : Text} {authored compiled : Entries Json}
  {turrets armaments sensors : List (Entries Json)} {index : Nat} {mount : Entries Json}

theorem LaidOut.centred_turret
    (h : LaidOut table owner authored compiled turrets armaments sensors)
    (hi : (objectsOf (authored.get? "turrets"))[index]? = some mount) (hc : Centred mount) :
    ∃ own mirror, PairAt turrets
        (placeAmong standsForPair (objectsOf (authored.get? "turrets")) index) own mirror ∧
      OnCenterline Authored.Turret.knownKeys mount own mirror := by
  refine ⟨_, _, ?_, hc.onCenterline_turret⟩
  rw [h.turrets_eq]
  exact pairAt_copies Authored.turretObject hi hc.paired

theorem LaidOut.centred_armament
    (h : LaidOut table owner authored compiled turrets armaments sensors)
    (hi : (objectsOf (authored.get? "armaments"))[index]? = some mount) (hc : Centred mount) :
    ∃ own mirror, PairAt armaments
        (placeAmong standsForPair (objectsOf (authored.get? "armaments")) index) own mirror ∧
      OnCenterline Authored.Armament.knownKeys mount own mirror ∧
      ∀ armament ∈ [own, mirror], ("turret" : Text) ∉ armament.keys := by
  refine ⟨_, _, ?_, hc.onCenterline_armament, ?_⟩
  · rw [h.armaments_eq]
    exact (pairAt_copies Authored.armamentObject hi hc.paired).append _
  · simp [Authored.turret_not_mem_armamentObject]

end Lists

/-- The lists of a template in the artifact are those of its layout. -/
theorem Stages.laidOut_mounts {members : Entries Json} {normalized : Table}
    (hs : Stages members normalized) (hd : (Json.object members).KeysDistinct) {key : Text}
    {authored : Entries Json} {compiled : Template} (ht : normalized.get? key = some compiled)
    (hc : ((Authored.Template.meaning authored).compile key).outcome = .ok compiled) :
    let template := { compiled with armaments := normalized.full key }.toJson
    ∃ object sensors, LaidOut normalized.rendered key authored object (template.mounts .turrets)
      (template.mounts .armaments) sensors := by
  have hlaid := hs.laidOut hd ht hc
  have hturrets := (Template.mounts_turrets
    { compiled with armaments := normalized.full key }).mounts_eq
  have harmaments := (Template.mounts_armaments
    { compiled with armaments := normalized.full key }).mounts_eq
  exact ⟨_, _, hturrets ▸ harmaments ▸ hlaid⟩

/-- The two entries of a pair on the centerline read the same exactly if it has no negative zero,
and else the first of them shows it. Copies show it where the entry they are copies of does. -/
theorem compile_centerline (input output : Json) (hd : input.KeysDistinct)
    (h : (compile input).outcome = .ok output) :
    ∃ members table : Entries Json, input = .object members ∧ output = .object table ∧
      ∀ key v, (key, v) ∈ members → ∃ template, (key, template) ∈ table ∧
        (∀ index mount, (v.mounts .turrets)[index]? = some mount → Centred mount →
          ∃ own mirror, PairAt (template.mounts .turrets)
              (placeAmong standsForPair (v.mounts .turrets) index) own mirror ∧
            OnCenterline Authored.Turret.knownKeys mount own mirror) ∧
        ∀ index mount, (v.mounts .armaments)[index]? = some mount → Centred mount →
          ∃ own mirror, PairAt (template.mounts .armaments)
              (placeAmong standsForPair (v.mounts .armaments) index) own mirror ∧
            OnCenterline Authored.Armament.knownKeys mount own mirror ∧
            ∀ armament ∈ [own, mirror], ∀ other copy, HandedOn table key armament other copy →
              copy ∈ armamentsBehind table (some other) ∧
                ((Json.object copy).AvoidsNegativeZero ↔
                  (Json.object armament).AvoidsNegativeZero) := by
  obtain ⟨members, normalized, rfl, hs, rfl⟩ := compile_eq_ok_iff.mp h
  have hall : ∀ key template, normalized.rendered.get? key = some template →
      ∃ owner authored compiled sensors, LaidOut normalized.rendered owner authored compiled
        (template.mounts .turrets) (template.mounts .armaments) sensors := by
    intro key template ht
    obtain ⟨authored, compiled, -, hfound, hc, rfl⟩ :=
      hs.exists_authored_of_mem hd (Entries.mem_of_get? ht)
    exact ⟨key, authored, hs.laidOut_mounts hd hfound hc⟩
  refine ⟨members, normalized.rendered, rfl, rfl, ?_⟩
  intro key v hv
  obtain ⟨authored, compiled, rfl, hfound, hc⟩ := hs.exists_compiled_of_mem hd hv
  obtain ⟨object, sensors, hlaid⟩ := hs.laidOut_mounts hd hfound hc
  have hrendered : normalized.rendered.get? key =
      some { compiled with armaments := normalized.full key }.toJson := by
    rw [Table.rendered, Entries.get?_mapValues, hfound]
    rfl
  refine ⟨_, Entries.mem_of_get? hrendered, ?_, ?_⟩
  · exact fun index mount hi hcentred => hlaid.centred_turret hi hcentred
  · intro index mount hi hcentred
    obtain ⟨own, mirror, hpair, hon, hnew⟩ := hlaid.centred_armament hi hcentred
    refine ⟨own, mirror, hpair, hon, ?_⟩
    intro armament ha other copy hcopy
    have hmem : armament ∈ armamentsBehind normalized.rendered (some key) := by
      rw [armamentsBehind_of_get? hrendered]
      rcases List.mem_pair.mp ha with rfl | rfl
      · exact List.mem_of_getElem? hpair.own
      · exact List.mem_of_getElem? hpair.mirror
    exact ⟨hcopy.mem_armamentsBehind hall hmem, hcopy.avoidsNegativeZero_iff (hnew armament ha)⟩

/-- A gun whose angle is lost in radians but for its sign, and a pair of turrets that carry it. -/
def figurehead : Json :=
  .object [("gun", .object [("armaments",
      .array [.object [("symmetrical", .bool true), ("angle", .float (-5e-324))]])]),
    ("ship", .object [("turrets",
      .array [.object [("type", .string "gun"), ("symmetrical", .bool true)]])])]

/-- The turrets read the same. The guns do not, and the copies of the first one have its zero. -/
theorem compile_figurehead : figurehead.KeysDistinct ∧
    ∃ output table, (compile figurehead).outcome = .ok output ∧ output = .object table ∧
      (∃ template own mirror, (("ship" : Text), template) ∈ table ∧
        PairAt (template.mounts .turrets) 0 own mirror ∧
        (Json.object own).toText = (Json.object mirror).toText) ∧
      ∃ template own mirror, (("gun" : Text), template) ∈ table ∧
        PairAt (template.mounts .armaments) 0 own mirror ∧
        (Json.object own).toText ≠ (Json.object mirror).toText ∧
        (Json.object mirror).AvoidsNegativeZero ∧
        ∀ copy, HandedOn table "gun" own "ship" copy →
          copy ∈ armamentsBehind table (some ("ship" : Text)) ∧
            ¬(Json.object copy).AvoidsNegativeZero := by
  have hd : figurehead.KeysDistinct := by
    simp only [figurehead, Json.KeysDistinct, Json.MembersDistinct, Json.ItemsDistinct,
      Entries.keys, and_true]
    decide
  obtain ⟨output, h⟩ : ∃ output, (compile figurehead).outcome = .ok output :=
    exists_eq_ok_of_isSome (by decide +kernel)
  obtain ⟨members, table, heq, rfl, hall⟩ := compile_centerline figurehead output hd h
  obtain rfl := Json.object.inj heq
  obtain ⟨gun, hgun, -, harmaments⟩ := hall "gun" _ (List.mem_cons_self ..)
  obtain ⟨ship, hship, hturrets, -⟩ :=
    hall "ship" _ (List.mem_cons_of_mem _ (List.mem_singleton_self _))
  have hplain : Unsigned [("type", .string "gun"), ("symmetrical", .bool true)] := by
    constructor <;> decide +kernel
  have hsigned : ¬Unsigned [("symmetrical", .bool true), ("angle", .float (-5e-324))] :=
    fun hunsigned => hunsigned.1 (by decide +kernel)
  obtain ⟨own, mirror, hpair, hon⟩ := hturrets 0 _ rfl ⟨rfl, by decide +kernel, by decide +kernel⟩
  obtain ⟨first, second, hguns, honGuns, hcopies⟩ :=
    harmaments 0 _ rfl ⟨rfl, by decide +kernel, by decide +kernel⟩
  refine ⟨hd, _, table, h, rfl, ⟨ship, own, mirror, hship, hpair, ?_⟩,
    gun, first, second, hgun, hguns, ?_, ?_, ?_⟩
  · exact (hon.text .compact 0).mpr hplain
  · exact fun htext => hsigned ((honGuns.text .compact 0).mp htext)
  · exact honGuns.mirror.mpr (Json.AvoidsNegativeZero.object_iff.mpr (List.forall_mem_nil _))
  · intro copy hcopy
    obtain ⟨hmem, hiff⟩ := hcopies first (List.mem_cons_self ..) "ship" copy hcopy
    exact ⟨hmem, fun havoids => hsigned (honGuns.own.mp (hiff.mp havoids)).1⟩

/-- A turret on the centerline, authored with a sign. -/
def signedTurret : Entries Json :=
  [("symmetrical", .bool true), ("angle", .float (.zero true))]

theorem compile_signedTurret : Centred signedTurret ∧
    ((compile (.object [("m", .object [("turrets", .array [.object signedTurret])])])).outcome
        |>.toOption.bind fun output => (Entries.get? "m" (Authored.objectOf output)).map
          fun template => (template.mounts .turrets).map fun mount => (Json.object mount).toText) =
      some [("\x7b\"angle\":-0.0,\"positionSide\":0.0\x7d" : Text),
        "\x7b\"angle\":0.0,\"positionSide\":0.0\x7d"] :=
  ⟨⟨rfl, by decide +kernel, by decide +kernel⟩, by decide +kernel⟩

end EntityTable
