import EntityTable.Proofs.Artifact.Alike
import EntityTable.Proofs.Artifact.Stages
import EntityTable.Proofs.Verdict
import EntityTable.Storage.Artifact

/-!
The order in which objects list their entries does not decide how a compilation ends, and shows in
the artifact as an order of entries only. With sorted keys it does not show in the file at all.
-/

namespace EntityTable

open Relation (ReflTransGen TransGen)
open Authored (SameEntries)

/-! ### Groups of failures -/

/-- What an author has to mend: the shape of the table, a missing attribute, or a reference. -/
inductive Failure.Group
  | malformed
  | missing
  | reference
  deriving DecidableEq

def Failure.group? : Failure → Option Group
  | .malformed .. => some .malformed
  | .lengthMissing .. => some .missing
  | .unknownReference .. | .referenceCycle _ => some .reference
  | .integerTooLarge | .unknownKey _ => none

theorem Failure.IsReference.group? {failure : Failure} (h : failure.IsReference) :
    failure.group? = some .reference := by
  rcases h with ⟨owner, position, target, rfl⟩ | ⟨cycle, rfl⟩ <;> rfl

/-- The group of failures that a table ends in, as far as its value tells. -/
inductive Fate (input : Json) : Option Failure.Group → Prop
  | malformed (misshaped : ¬Authored.Table.Shaped input) : Fate input (some .malformed)
  | missing (members : Entries Json) (same : input = .object members)
      (shaped : Authored.Table.Shaped input)
      (lacking : ¬∀ entry ∈ members, Authored.Derivable entry.2) : Fate input (some .missing)
  | reference (members : Entries Json) (same : input = .object members)
      (shaped : Authored.Table.Shaped input)
      (derivable : ∀ entry ∈ members, Authored.Derivable entry.2)
      (defective : ¬∀ key ∈ members.keys, ¬Authored.ReachesDefect members key) :
      Fate input (some .reference)
  | success (members : Entries Json) (same : input = .object members)
      (shaped : Authored.Table.Shaped input)
      (derivable : ∀ entry ∈ members, Authored.Derivable entry.2)
      (sound : ∀ key ∈ members.keys, ¬Authored.ReachesDefect members key) : Fate input none

theorem exists_fate (input : Json) : ∃ fate, Fate input fate := by
  by_cases hs : Authored.Table.Shaped input
  · cases input with
    | object members =>
      by_cases hd : ∀ entry ∈ members, Authored.Derivable entry.2
      · by_cases hr : ∀ key ∈ Entries.keys members, ¬Authored.ReachesDefect members key
        · exact ⟨none, .success members rfl hs hd hr⟩
        · exact ⟨some .reference, .reference members rfl hs hd hr⟩
      · exact ⟨some .missing, .missing members rfl hs hd⟩
    | _ => cases hs
  · exact ⟨some .malformed, .malformed hs⟩

/-- A compilation ends as its fate is. -/
theorem Fate.outcome {input : Json} {fate : Option Failure.Group} (h : Fate input fate)
    (hfit : Authored.Table.IntegersFit input) :
    (∃ output, fate = none ∧ (compile input).outcome = .ok output) ∨
      ∃ failure, fate = failure.group? ∧ fate ≠ none ∧
        (compile input).outcome = .error failure := by
  cases h with
  | malformed misshaped =>
    obtain ⟨offence, owner, field, hc⟩ := malformed_of_not_shaped hfit misshaped
    exact .inr ⟨_, rfl, by simp, by rw [hc]⟩
  | missing members same shaped lacking =>
    subst same
    obtain ⟨before, ⟨key, v⟩, after, hsplit, hbefore, hlacks⟩ := exists_first lacking
    simp only [Authored.Derivable, not_forall, not_not] at hlacks
    obtain ⟨template, derived, rfl, hneeds⟩ := hlacks
    obtain ⟨subtype, -, hc, -⟩ :=
      (verdict_of_shaped hfit shaped).length before key template after derived hsplit hbefore hneeds
    exact .inr ⟨_, rfl, by simp, hc⟩
  | reference members same shaped derivable defective =>
    subst same
    obtain ⟨before, key, after, hsplit, hbefore, hreaches⟩ := exists_first defective
    obtain ⟨authored, normalized, -, -, hfirst⟩ :=
      (verdict_of_shaped hfit shaped).reference derivable
    obtain ⟨front, back, rfl, rfl, hback⟩ := List.map_eq_append_iff.mp hsplit
    obtain ⟨⟨key', v⟩, rest, rfl, rfl, rfl⟩ := List.map_eq_cons_iff.mp hback
    obtain ⟨failure, hreference, hc, -⟩ := hfirst front key' v rest rfl
      (fun entry he => hbefore _ (List.mem_map_of_mem he)) (not_not.mp hreaches)
    exact .inr ⟨failure, hreference.group?.symm, by simp, hc⟩
  | success members same shaped derivable sound =>
    subst same
    obtain ⟨table, hc, -⟩ := (verdict_of_shaped hfit shaped).success derivable
      fun entry he => sound _ (List.mem_map_of_mem he)
    exact .inl ⟨_, rfl, hc⟩

/-! ### The order of entries -/

namespace Authored

section Defects

variable {members members' : Entries Json} (h : SameEntries members members')
include h

theorem get?_string_iff (key t : Text) :
    members.get? key = some (.string t) ↔ members'.get? key = some (.string t) := by
  rw [← stringOf_eq_some_iff, ← stringOf_eq_some_iff, stringOf_eq (h.get? key)]

theorem lacksLength_of_same {subtypes : List Text} (hl : LacksLength subtypes members) :
    LacksLength subtypes members' := by
  obtain ⟨hweapon, hlength, name, hname, hsub⟩ := hl
  exact ⟨(get?_string_iff h _ _).mp hweapon, isUnset_eq (h.get? _) ▸ hlength, name, hname,
    (get?_string_iff h _ _).mp hsub⟩

theorem rangeNeedsLength_of_same (hr : RangeNeedsLength members) : RangeNeedsLength members' :=
  ⟨isUnset_eq (h.get? "range") ▸ hr.1, lacksLength_of_same h hr.2⟩

theorem needsLength_of_same {derived : DerivedAttribute} (hn : NeedsLength members derived) :
    NeedsLength members' derived := by
  cases hn with
  | range needs => exact .range (rangeNeedsLength_of_same h needs)
  | damage needs limited =>
    refine .damage ⟨isUnset_eq (h.get? "damage") ▸ needs.1, lacksLength_of_same h needs.2⟩ ?_
    intro hr
    exact limited (rangeNeedsLength_of_same h.symm hr)

theorem mem_keys_iff_of_same (key : Text) : key ∈ members.keys ↔ key ∈ members'.keys :=
  (Json.keys_perm_of_reordered h.reordered).mem_iff

theorem exists_object_of_get? {key : Text} {object : Members}
    (ho : members.get? key = some (.object object)) :
    ∃ object', members'.get? key = some (.object object') ∧ SameEntries object object' := by
  have hkey := h.get? key
  rw [ho] at hkey
  generalize members'.get? key = found at hkey
  cases hkey with
  | some halike =>
    obtain ⟨object', rfl, hsame⟩ := SameEntries.exists_object halike
    exact ⟨object', rfl, hsame⟩

theorem references_of_same {key target : Text} (hr : References members key target) :
    References members' key target := by
  obtain ⟨template, turrets, turret, ht, hturrets, hmem, htype⟩ := hr
  obtain ⟨template', ht', hsame⟩ := exists_object_of_get? h ht
  have hlist := hsame.get? "turrets"
  rw [hturrets] at hlist
  cases hfound : Entries.get? "turrets" template' with
  | none => rw [hfound] at hlist; cases hlist
  | some v =>
    rw [hfound] at hlist
    cases hlist with
    | some halike =>
      cases v with
      | array turrets' =>
        obtain ⟨v', hv', hback⟩ :=
          exists_of_mem_forall₂ (Json.Alike.array_iff.mp halike.symm) hmem
        obtain ⟨turret', rfl, hturret⟩ := SameEntries.exists_object hback.symm
        exact ⟨template', turrets', turret', ht', hfound, hv',
          (get?_string_iff hturret _ _).mp htype⟩
      | _ => cases halike.reordered

theorem reachesDefect_iff_of_same (key : Text) :
    ReachesDefect members key ↔ ReachesDefect members' key := by
  have href : References members = References members' := by
    funext key target
    exact propext ⟨references_of_same h, references_of_same h.symm⟩
  simp only [ReachesDefect, href, mem_keys_iff_of_same h]

end Defects

theorem derivable_of_alike {v w : Json} (h : v.Alike w) (hv : Derivable v) : Derivable w := by
  intro template' derived hw hneeds
  subst hw
  obtain ⟨template, rfl, hsame⟩ := SameEntries.exists_object h.symm
  exact hv template derived rfl (needsLength_of_same hsame hneeds)

end Authored

/-- Alike tables have the same fate. -/
theorem Fate.of_alike {input input' : Json} {fate : Option Failure.Group} (h : input.Alike input')
    (hf : Fate input fate) : Fate input' fate := by
  have hderivable {xs ys : Entries Json} (hsame : SameEntries xs ys)
      (hall : ∀ entry ∈ xs, Authored.Derivable entry.2) :
      ∀ entry ∈ ys, Authored.Derivable entry.2 :=
    hsame.forall_values (fun _ _ => Authored.derivable_of_alike) hall
  have hsound {xs ys : Entries Json} (hsame : SameEntries xs ys)
      (hall : ∀ key ∈ xs.keys, ¬Authored.ReachesDefect xs key) :
      ∀ key ∈ ys.keys, ¬Authored.ReachesDefect ys key := by
    intro key hk
    rw [← Authored.reachesDefect_iff_of_same hsame]
    exact hall key ((Authored.mem_keys_iff_of_same hsame key).mpr hk)
  cases hf with
  | malformed misshaped =>
    exact .malformed fun hs => misshaped (Authored.Table.shaped_of_alike h.symm hs)
  | missing members same shaped lacking =>
    subst same
    obtain ⟨members', rfl, hsame⟩ := SameEntries.exists_object h
    exact .missing members' rfl (Authored.Table.shaped_of_alike h shaped)
      fun hall => lacking (hderivable hsame.symm hall)
  | reference members same shaped derivable defective =>
    subst same
    obtain ⟨members', rfl, hsame⟩ := SameEntries.exists_object h
    exact .reference members' rfl (Authored.Table.shaped_of_alike h shaped)
      (hderivable hsame derivable) fun hall => defective (hsound hsame.symm hall)
  | success members same shaped derivable sound =>
    subst same
    obtain ⟨members', rfl, hsame⟩ := SameEntries.exists_object h
    exact .success members' rfl (Authored.Table.shaped_of_alike h shaped)
      (hderivable hsame derivable) (hsound hsame sound)

/-! ### The artifacts -/

section Artifacts

variable {members members' : Entries Json} {normalized normalized' : Table}

/-- The artifacts of alike tables are alike. -/
theorem Stages.alike_rendered (h : SameEntries members members')
    (hs : Stages members normalized) (hs' : Stages members' normalized') :
    SameEntries normalized.rendered normalized'.rendered := by
  have hn : normalized.keys.Nodup := hs.keys_eq ▸ h.distinct.keys_nodup
  have hn' : normalized'.keys.Nodup := hs'.keys_eq ▸ h.symm.distinct.keys_nodup
  refine Table.sameEntries_rendered hn hn' ?_ hs.collected
  intro key
  have hkey := h.get? key
  have hfound := hs.get? key
  have hfound' := hs'.get? key
  generalize normalized.get? key = t at hfound ⊢
  generalize normalized'.get? key = t' at hfound' ⊢
  cases hv : Entries.get? key members with
  | none =>
    rw [hv] at hkey hfound
    generalize members'.get? key = v' at hkey hfound'
    cases hkey
    cases hfound
    cases hfound'
    exact .none
  | some v =>
    rw [hv] at hkey hfound
    cases hv' : Entries.get? key members' with
    | none => rw [hv'] at hkey; cases hkey
    | some v' =>
      rw [hv'] at hkey hfound'
      cases hkey with
      | some halike =>
        cases hfound with
        | some hc =>
          cases hfound' with
          | some hc' =>
            have hmeaning := Authored.Template.alike_meaning (Authored.sameEntries_objectOf halike)
            exact .some (Authored.Template.alike_compile hmeaning hc hc')

/-- Where only the order of the templates differs, each of them has the same artifact. -/
theorem Stages.get?_rendered_of_perm (hn : members.keys.Nodup) (h : members.Perm members')
    (hs : Stages members normalized) (hs' : Stages members' normalized') (key : Text) :
    normalized.rendered.get? key = normalized'.rendered.get? key := by
  have hn' : Entries.keys members' |>.Nodup := (h.map Prod.fst).nodup_iff.mp hn
  have hsame (key : Text) : normalized.get? key = normalized'.get? key :=
    hs.get?_eq hs' ((Entries.perm_iff_get?_eq hn hn').mp h key)
  have hrelated (key : Text) :
      Option.Rel (Template.Related Eq) (normalized.get? key) (normalized'.get? key) := by
    rw [hsame]
    cases normalized'.get? key with
    | none => exact .none
    | some t => exact .some ⟨rfl, List.forall₂_same.mpr fun _ _ => rfl⟩
  rw [Table.rendered, Table.rendered, Entries.get?_mapValues, Entries.get?_mapValues, ← hsame]
  cases ht : normalized.get? key with
  | none => rfl
  | some t =>
    obtain ⟨armaments, hc⟩ := hs.collected _ (Entries.mem_of_get? ht)
    have hfull := Table.full_related (fun a b i hab => by rw [hab]) hrelated hc
    rw [List.forall₂_eq_eq_eq] at hfull
    rw [Option.map_some, Option.map_some, hfull]

end Artifacts

/-! ### The files -/

namespace Storage

/-- With sorted keys, alike values are written alike, or refused alike. -/
theorem writeJson_eq_of_alike {v w : Json} (h : v.Alike w) (memory : Memory) (tree : FileTree)
    (target : Path) (indent : Option Indent) :
    writeJson memory tree target ⟨indent, true⟩ v =
      writeJson memory tree target ⟨indent, true⟩ w := by
  have harrange : Format.arrange ⟨indent, true⟩ v = Format.arrange ⟨indent, true⟩ w :=
    h.reordered.sortKeys_eq h.distinct
  have hcount : itemCount? v = itemCount? w ∧ v.typeName = w.typeName := by
    obtain ⟨hd, hr⟩ := h
    cases hr with
    | null | bool | int | float | string => exact ⟨rfl, rfl⟩
    | array each =>
      have hlength := (Json.itemsReordered_iff.mp each).length_eq
      exact ⟨congrArg some hlength, rfl⟩
    | object each order =>
      have hlength := (Json.membersReordered_iff.mp each).length_eq.trans order.length_eq
      exact ⟨congrArg some hlength, rfl⟩
  have hreplace (opened : FileTree) (temporary : Place) :
      replaceArtifact memory opened temporary target ⟨indent, true⟩ v =
        replaceArtifact memory opened temporary target ⟨indent, true⟩ w := by
    unfold replaceArtifact
    rw [harrange]
  unfold writeJson
  simp only [hreplace, hcount.1, hcount.2]

end Storage

/-- The order of entries in objects decides neither whether a table compiles nor what is wrong with
it. It shows in the artifact as an order of entries only; the order of the templates does not show
in their artifacts at all, and with sorted keys no order shows in the file. -/
theorem compile_reordered (input input' : Json) (hd : input.KeysDistinct)
    (hfit : Authored.Table.IntegersFit input) (h : input.Reordered input') :
    ((∃ output, (compile input).outcome = .ok output) ↔
        ∃ output', (compile input').outcome = .ok output') ∧
      (∀ failure failure', (compile input).outcome = .error failure →
        (compile input').outcome = .error failure' →
          ∃ group, failure.group? = some group ∧ failure'.group? = some group) ∧
      ∀ output output', (compile input).outcome = .ok output →
        (compile input').outcome = .ok output' →
          output.Reordered output' ∧
          (∀ members members', input = .object members → input' = .object members' →
            members.Perm members' → ∃ table table' : Entries Json, output = .object table ∧
              output' = .object table' ∧ ∀ key, table.get? key = table'.get? key) ∧
          output.sortKeys = output'.sortKeys ∧
          ∀ memory tree target indent, Storage.writeJson memory tree target ⟨indent, true⟩ output =
            Storage.writeJson memory tree target ⟨indent, true⟩ output' := by
  have halike : input.Alike input' := ⟨hd, h⟩
  obtain ⟨fate, hfate⟩ := exists_fate input
  have hends := hfate.outcome hfit
  have hends' := (hfate.of_alike halike).outcome (Authored.Table.integersFit_of_alike halike hfit)
  refine ⟨?_, ?_, ?_⟩
  · rcases hends with ⟨output, hnone, hc⟩ | ⟨failure, -, hsome, hc⟩
    · rcases hends' with ⟨output', -, hc'⟩ | ⟨-, -, hsome, -⟩
      · exact ⟨fun _ => ⟨output', hc'⟩, fun _ => ⟨output, hc⟩⟩
      · exact absurd hnone hsome
    · rcases hends' with ⟨-, hnone, -⟩ | ⟨failure', -, -, hc'⟩
      · exact absurd hnone hsome
      · simp [hc, hc']
  · intro failure failure' hc hc'
    rcases hends with ⟨output, -, hok⟩ | ⟨found, hgroup, hsome, hfails⟩
    · cases hok.symm.trans hc
    rcases hends' with ⟨output', -, hok'⟩ | ⟨found', hgroup', -, hfails'⟩
    · cases hok'.symm.trans hc'
    obtain rfl := Except.error.inj (hfails.symm.trans hc)
    obtain rfl := Except.error.inj (hfails'.symm.trans hc')
    obtain ⟨group, hgiven⟩ := Option.ne_none_iff_exists'.mp hsome
    exact ⟨group, hgroup ▸ hgiven, hgroup' ▸ hgiven⟩
  · intro output output' hc hc'
    obtain ⟨members, normalized, rfl, hs, rfl⟩ := compile_eq_ok_iff.mp hc
    obtain ⟨members', normalized', rfl, hs', rfl⟩ := compile_eq_ok_iff.mp hc'
    have hrendered := hs.alike_rendered halike hs'
    refine ⟨hrendered.reordered, ?_, hrendered.reordered.sortKeys_eq hrendered.distinct,
      Storage.writeJson_eq_of_alike hrendered⟩
    intro _ _ hmembers hmembers' hperm
    obtain rfl := Json.object.inj hmembers
    obtain rfl := Json.object.inj hmembers'
    exact ⟨_, _, rfl, rfl, hs.get?_rendered_of_perm hd.keys_nodup hperm hs'⟩

/-- The fleet of `broadside`, with the entries of every object the other way round. -/
def broadsideReversed : Json :=
  .object [("gun", .object [("armaments",
      .array [.object [("positionSide", .int 1), ("symmetrical", .bool true)]])]),
    ("ship", .object [
      ("turrets", .array [.object [("symmetrical", .bool true), ("type", .string "gun")]]),
      ("armaments", .array [.object [("type", .string "anchor")]])])]

/-- The gun is read before the ship that carries it, and the artifact is the same up to order. -/
theorem compile_broadsideReversed : broadside.KeysDistinct ∧
    Authored.Table.IntegersFit broadside ∧ broadside.Reordered broadsideReversed ∧
    ∃ output output', (compile broadside).outcome = .ok output ∧
      (compile broadsideReversed).outcome = .ok output' ∧ output.Reordered output' ∧
      output.sortKeys = output'.sortKeys := by
  have hd : broadside.KeysDistinct := by
    simp only [broadside, Json.KeysDistinct, Json.MembersDistinct, Json.ItemsDistinct,
      Entries.keys, and_true]
    decide
  have hfit : Authored.Table.IntegersFit broadside := by decide +kernel
  have hmounts {xs ys : Entries Json} (hmembers : (Json.object xs).Reordered (.object ys)) :
      (Json.array [.object xs]).Reordered (.array [.object ys]) := .array (.cons hmembers .nil)
  have hship : (Json.object [("armaments", .array [.object [("type", .string "anchor")]]),
      ("turrets",
        .array [.object [("type", .string "gun"), ("symmetrical", .bool true)]])]).Reordered
      (.object [("turrets",
          .array [.object [("symmetrical", .bool true), ("type", .string "gun")]]),
        ("armaments", .array [.object [("type", .string "anchor")]])]) :=
    .object (.cons _ (.refl _) (.cons _ (hmounts (.object (.refl _) (.swap ..))) .nil)) (.swap ..)
  have hgun : (Json.object [("armaments",
      .array [.object [("symmetrical", .bool true), ("positionSide", .int 1)]])]).Reordered
      (.object [("armaments",
        .array [.object [("positionSide", .int 1), ("symmetrical", .bool true)]])]) :=
    .object (.cons _ (hmounts (.object (.refl _) (.swap ..))) .nil) (.refl _)
  have hr : broadside.Reordered broadsideReversed :=
    .object (.cons _ hship (.cons _ hgun .nil)) (.swap ..)
  obtain ⟨output, hc⟩ : ∃ output, (compile broadside).outcome = .ok output :=
    exists_eq_ok_of_isSome (by decide +kernel)
  obtain ⟨hiff, -, hboth⟩ := compile_reordered broadside broadsideReversed hd hfit hr
  obtain ⟨output', hc'⟩ := hiff.mp ⟨output, hc⟩
  obtain ⟨hsame, -, hsorted, -⟩ := hboth output output' hc hc'
  exact ⟨hd, hfit, hr, output, output', hc, hc', hsame, hsorted⟩

end EntityTable
