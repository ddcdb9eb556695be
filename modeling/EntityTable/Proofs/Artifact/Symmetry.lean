import EntityTable.Proofs.Artifact.Layout

/-!
Mirrored pairs from the authored lists to the artifact. The place of a turret among the mounted ones
is the index that inherited armaments carry, so that both turrets of a pair bring in the whole list
of the template they name, each with an index of its own.
-/

namespace EntityTable

open Authored (standsForPair objectsOf stringOf)

/-- What comes in through an authored turret: all armaments of the template it names, once with the
place of the turret and, for a pair, again with the next place. -/
def inheritedThrough (table : Entries Json) (turrets : List (Entries Json)) (index : Nat)
    (turret : Entries Json) : List (Entries Json) :=
  let place := placeAmong standsForPair turrets index
  let behind := armamentsBehind table (stringOf (turret.get? "type"))
  if standsForPair turret then
    behind.map (marked place) ++ behind.map (marked (place + 1))
  else behind.map (marked place)

namespace Authored

/-- Both turrets of a pair name the same template. -/
theorem stringOf_type_turretObject (angle side : Binary64) (mount : Members) :
    stringOf ((turretObject angle side mount).get? "type") = stringOf (mount.get? "type") := by
  have hlacks := Entries.lacks_without Turret.knownKeys mount
  rw [turretObject_eq_members, EntityTable.Turret.get?_type_members hlacks]
  cases stringOf (mount.get? "type") <;> rfl

theorem turret_not_mem_armamentObject (angle side : Binary64) (mount : Members) :
    ("turret" : Text) ∉ (armamentObject angle side mount).keys := by
  have hlacks := Entries.lacks_without Armament.knownKeys mount
  rw [← Entries.get?_eq_none_iff, armamentObject_eq_members,
    EntityTable.Armament.get?_turret_members hlacks]
  rfl

theorem mem_copies {object : Binary64 → Binary64 → Members → Entries Json} {mount : Members}
    {found : Entries Json} (h : found ∈ copies object mount) :
    ∃ angle side, found = object angle side mount := by
  rcases mem_paired_iff.mp h with h | ⟨-, h⟩
  · exact ⟨_, _, h⟩
  · exact ⟨_, _, h⟩

end Authored

section Artifact

variable {table : Entries Json} {owner : Text} {authored compiled : Entries Json}
  {turrets armaments sensors : List (Entries Json)}

/-- The inherited armaments, authored turret by authored turret. -/
theorem LaidOut.armaments_through
    (h : LaidOut table owner authored compiled turrets armaments sensors) :
    ∃ own, (∀ armament ∈ own, ("turret" : Text) ∉ Entries.keys armament) ∧
      armaments = own ++ (objectsOf (authored.get? "turrets")).zipIdx.flatMap
        fun (turret, index) =>
          inheritedThrough table (objectsOf (authored.get? "turrets")) index turret := by
  have hcopies : turrets = (objectsOf (authored.get? "turrets")).flatMap
      (paired standsForPair _ _) := h.turrets_eq
  refine ⟨_, ?_, h.armaments_eq.trans (congrArg _ ?_)⟩
  · intro armament ha
    obtain ⟨mount, -, hcopy⟩ := List.mem_flatMap.mp ha
    obtain ⟨angle, side, rfl⟩ := Authored.mem_copies hcopy
    exact Authored.turret_not_mem_armamentObject angle side mount
  · rw [hcopies, flatMap_zipIdx_paired]
    refine List.flatMap_congr fun entry _ => ?_
    simp only [Authored.stringOf_type_turretObject]
    rfl

end Artifact

/-- Mounts are expanded in place, and the places of the turrets are what the inherited armaments
carry in the artifact. -/
theorem compile_symmetry :
    (∀ turrets : List Authored.Turret, Expands (·.symmetrical)
      Authored.Turret.mounted Authored.Turret.mirrored turrets
      (turrets.flatMap Authored.Turret.expand)) ∧
    (∀ armaments : List Authored.Armament, Expands (·.symmetrical)
      Authored.Armament.mounted Authored.Armament.mirrored armaments
      (armaments.flatMap Authored.Armament.expand)) ∧
    (∀ x : Binary64, (x.eq 0 = true → x.opposite = 0) ∧ (x.eq 0 = false → x.opposite = -x) ∧
      x.opposite ≠ .zero true) ∧
    ∀ input output : Json, input.KeysDistinct → (compile input).outcome = .ok output →
      ∃ members table : Entries Json, input = .object members ∧ output = .object table ∧
        ∀ key v, (key, v) ∈ members → ∃ template, (key, template) ∈ table ∧
          ∃ own, (∀ armament ∈ own, ("turret" : Text) ∉ Entries.keys armament) ∧
            template.mounts .armaments = own ++ (v.mounts .turrets).zipIdx.flatMap
              fun (turret, index) => inheritedThrough table (v.mounts .turrets) index turret := by
  refine ⟨Authored.Turret.expands, Authored.Armament.expands, ?_, ?_⟩
  · intro x
    exact ⟨Binary64.opposite_of_zero, Binary64.opposite_of_nonzero,
      Binary64.opposite_ne_zero_true x⟩
  · intro input output hd h
    obtain ⟨members, normalized, rfl, hs, rfl⟩ := compile_eq_ok_iff.mp h
    refine ⟨members, normalized.rendered, rfl, rfl, ?_⟩
    intro key v hv
    obtain ⟨authored, compiled, rfl, ht, hc⟩ := hs.exists_compiled_of_mem hd hv
    obtain ⟨own, hown, harmaments⟩ := (hs.laidOut hd ht hc).armaments_through
    have hrendered : (key, { compiled with armaments := normalized.full key }.toJson) ∈
        normalized.rendered := List.mem_map_of_mem (Entries.mem_of_get? ht)
    have hmounts := (Template.mounts_armaments
      { compiled with armaments := normalized.full key }).mounts_eq
    exact ⟨_, hrendered, own, hown, hmounts.trans harmaments⟩

/-- A ship with a pair of guns in front of a single one, and the gun. -/
def trident : Json :=
  .object [("ship", .object [("turrets", .array [
      .object [("type", .string "gun"), ("symmetrical", .bool true), ("positionSide", .int 1)],
      .object [("type", .string "gun")]])]),
    ("gun", .object [("armaments", .array [.object [("symmetrical", .bool true)]])])]

/-- The single gun is the third one. -/
theorem compile_trident : Binary64.opposite (.zero true) = 0 ∧ Binary64.opposite 1 = -1 ∧
    trident.KeysDistinct ∧ ∃ output table template own,
    (compile trident).outcome = .ok output ∧ output = .object table ∧
      (("ship" : Text), template) ∈ table ∧
      template.mounts .armaments = own ++
        ((armamentsBehind table (some "gun")).map (marked 0) ++
          (armamentsBehind table (some "gun")).map (marked 1) ++
          (armamentsBehind table (some "gun")).map (marked 2)) := by
  have hd : trident.KeysDistinct := by
    simp only [trident, Json.KeysDistinct, Json.MembersDistinct, Json.ItemsDistinct,
      Entries.keys, and_true]
    decide
  obtain ⟨output, h⟩ : ∃ output, (compile trident).outcome = .ok output :=
    exists_eq_ok_of_isSome (by decide +kernel)
  obtain ⟨members, table, heq, rfl, hall⟩ := compile_symmetry.2.2.2 trident output hd h
  obtain rfl := Json.object.inj heq
  obtain ⟨template, hmem, own, -, hmounts⟩ := hall "ship" _ (List.mem_cons_self ..)
  refine ⟨(compile_symmetry.2.2.1 _).1 (by decide +kernel),
    (compile_symmetry.2.2.1 _).2.1 (by decide +kernel), hd, _, table, template, own, h, rfl, hmem,
    hmounts.trans (congrArg _ ?_)⟩
  show inheritedThrough table _ 0 _ ++ (inheritedThrough table _ 1 _ ++ []) = _
  rw [List.append_nil]
  rfl

end EntityTable
