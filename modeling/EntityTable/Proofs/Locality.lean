import EntityTable.Proofs.Authored.Faults
import EntityTable.Proofs.Recompilation
import EntityTable.Proofs.Reordering

/-!
What the artifact of a template depends on. Its own value decides everything but the armaments, and
these hang besides on the mounts of the templates that references lead to, and on nothing else.
-/

namespace EntityTable

open Relation (ReflTransGen)

theorem Entries.keys_put_congr {α : Type} {xs ys : Entries α} (h : xs.keys = ys.keys) (key : Text)
    (x y : α) : (xs.put key x).keys = (ys.put key y).keys := by
  induction xs generalizing ys with
  | nil =>
    obtain rfl : ys = [] := by simpa [keys] using h.symm
    rfl
  | cons entry xs ih =>
    cases ys with
    | nil => simp [keys] at h
    | cons entry' ys =>
      obtain ⟨hkey, hrest⟩ := List.cons.inj h
      replace hkey : entry.1 = entry'.1 := hkey
      by_cases hk : entry.1 = key
      · simpa [put, keys, hk, ← hkey] using hrest
      · simpa [put, keys, hk, ← hkey] using ih hrest

/-- Templates that differ in their armaments only are rendered with the same keys, and with the same
values under all the others. -/
theorem Template.members_with_armaments (t : Template) (xs ys : List Armament) :
    Entries.keys { t with armaments := xs }.members =
        Entries.keys { t with armaments := ys }.members ∧
      ∀ field : Text, field ≠ "armaments" → Entries.get? field { t with armaments := xs }.members =
        Entries.get? field { t with armaments := ys }.members := by
  constructor
  · exact Entries.keys_put_congr (Entries.keys_put_congr rfl _ _ _) _ _ _
  · intro field hfield
    have hne : ("armaments" : Text) ≠ field := Ne.symm hfield
    simp [members, attributeMembers, hne]

/-- The template under a key lists the same turrets and armaments in another table as in the
first. -/
def Authored.KeepsMounts (members members' : Members) (key : Text) : Prop :=
  ∀ v, members.get? key = some v → ∃ v', members'.get? key = some v' ∧
    v.mounts .turrets = v'.mounts .turrets ∧ v.mounts .armaments = v'.mounts .armaments

namespace Stages

variable {members members' : Entries Json} {normalized normalized' : Table} {key : Text}

theorem references_iff (hs : Stages members normalized) (key target : Text) :
    normalized.References key target ↔ Authored.References members key target :=
  Authored.Table.references_normalized_iff (Authored.Table.shaped_of_ofJson hs.read) hs.compiled
    key target

/-- Templates with the same mounts name the same templates and list the same armaments. -/
theorem related_of_keepsMounts (hs : Stages members normalized) (hs' : Stages members' normalized')
    (h : Authored.KeepsMounts members members' key) {t : Template}
    (ht : normalized.get? key = some t) :
    ∃ t', normalized'.get? key = some t' ∧ Template.Related Eq t t' := by
  have hfound := hs.get? key
  have hfound' := hs'.get? key
  rw [ht] at hfound
  cases hv : Entries.get? key members with
  | none => rw [hv] at hfound; cases hfound
  | some v =>
    obtain ⟨v', hv', hturrets, harmaments⟩ := h v hv
    rw [hv] at hfound
    rw [hv'] at hfound'
    generalize normalized'.get? key = found at hfound' ⊢
    cases hfound with
    | some hc =>
      cases hfound' with
      | @some _ t' hc' =>
        obtain ⟨hct, hca⟩ := Authored.Template.mounts_of_compile hc
        obtain ⟨hct', hca'⟩ := Authored.Template.mounts_of_compile hc'
        have hsame : t.turrets = t'.turrets := by
          rw [hct, hct']
          exact congrArg (fun objects => (objects.map Authored.Turret.meaning).flatMap
            Authored.Turret.expand) hturrets
        have hown : t.armaments = t'.armaments := by
          rw [hca, hca']
          exact congrArg (fun objects => (objects.map Authored.Armament.meaning).flatMap
            Authored.Armament.expand) harmaments
        exact ⟨t', rfl, by rw [hsame], by rw [hown, List.forall₂_eq_eq_eq]⟩

/-- The full armament list follows from the mounts of the templates that references lead to. -/
theorem full_eq_of_keepsMounts (hs : Stages members normalized)
    (hs' : Stages members' normalized')
    (h : ∀ reached, ReflTransGen (Authored.References members) key reached →
      Authored.KeepsMounts members members' reached)
    {t : Template} (ht : normalized.get? key = some t) :
    normalized.full key = normalized'.full key := by
  have href : normalized.References = Authored.References members := by
    funext key target
    exact propext (hs.references_iff key target)
  obtain ⟨armaments, hc⟩ := hs.collected _ (Entries.mem_of_get? ht)
  -- only the first table has to be walked: what it leads to is in the second one, mounted alike
  have hrelated (reached : Text) (hr : ReflTransGen normalized.References key reached) :
      Option.Rel (Template.Related Eq) (normalized.get? reached) (normalized'.get? reached) := by
    obtain ⟨found, hfound⟩ := Table.collect_reached hc hr
    obtain ⟨-, behind, -, hb, -⟩ := Table.collect_eq_ok hfound
    obtain ⟨behind', hb', hrel⟩ := hs.related_of_keepsMounts hs' (h reached (href ▸ hr)) hb
    rw [hb, hb']
    exact .some hrel
  obtain ⟨armaments', hc', hsame⟩ :=
    Table.collect_related (fun a b i hab => by rw [hab]) hrelated hc
  rw [Table.full_of_collect hc, Table.full_of_collect hc']
  rwa [List.forall₂_eq_eq_eq] at hsame

end Stages

/-- A template that two tables have in common is compiled alike but for its armaments, and alike in
all if the templates that references lead to keep their mounts. -/
theorem compile_local (members members' : Entries Json) (output output' : Json)
    (h : (compile (.object members)).outcome = .ok output)
    (h' : (compile (.object members')).outcome = .ok output') (key : Text) (v : Json)
    (hv : members.get? key = some v) (hv' : members'.get? key = some v) :
    ∃ table table' template template' : Entries Json, output = .object table ∧
      output' = .object table' ∧ table.get? key = some (.object template) ∧
      table'.get? key = some (.object template') ∧ template.keys = template'.keys ∧
      (∀ field : Text, field ≠ "armaments" → template.get? field = template'.get? field) ∧
      ((∀ reached, ReflTransGen (Authored.References members) key reached →
        Authored.KeepsMounts members members' reached) → template = template') := by
  obtain ⟨_, normalized, heq, hs, rfl⟩ := compile_eq_ok_iff.mp h
  obtain rfl := Json.object.inj heq
  obtain ⟨_, normalized', heq', hs', rfl⟩ := compile_eq_ok_iff.mp h'
  obtain rfl := Json.object.inj heq'
  have hsame := hs.get?_eq hs' (hv.trans hv'.symm)
  obtain ⟨t, ht⟩ : ∃ t, normalized.get? key = some t :=
    Entries.exists_get?_of_mem_keys (hs.keys_eq ▸ Entries.mem_keys_of_get? hv)
  have hget : normalized.rendered.get? key =
      some (.object { t with armaments := normalized.full key }.members) := by
    rw [Table.rendered, Entries.get?_mapValues, ht]
    rfl
  have hget' : normalized'.rendered.get? key =
      some (.object { t with armaments := normalized'.full key }.members) := by
    rw [Table.rendered, Entries.get?_mapValues, ← hsame, ht]
    rfl
  obtain ⟨hkeys, hfields⟩ :=
    t.members_with_armaments (normalized.full key) (normalized'.full key)
  refine ⟨_, _, _, _, rfl, rfl, hget, hget', hkeys, hfields, fun hkept => ?_⟩
  rw [hs.full_eq_of_keepsMounts hs' hkept ht]

/-- The fleet of `broadside` refitted: the gun is given a range, and a buoy is added. -/
def refitted : Entries Json :=
  [("buoy", .object [("length", .int 3)]),
    ("gun", .object [("range", .int 900), ("armaments",
      .array [.object [("symmetrical", .bool true), ("positionSide", .int 1)]])]),
    ("ship", .object [("armaments", .array [.object [("type", .string "anchor")]]),
      ("turrets", .array [.object [("type", .string "gun"), ("symmetrical", .bool true)]])])]

/-- The refit keeps the mounts of the ship and of its gun, so the ship is compiled as before. -/
theorem compile_refitted : ∃ output output' table table' ship,
    (compile broadside).outcome = .ok output ∧
      (compile (.object refitted)).outcome = .ok output' ∧ output = .object table ∧
        output' = .object table' ∧ Entries.get? "ship" table = some ship ∧
          Entries.get? "ship" table' = some ship := by
  let fleet := Authored.objectOf broadside
  obtain ⟨output, h⟩ : ∃ output, (compile (.object fleet)).outcome = .ok output :=
    exists_eq_ok_of_isSome (by decide +kernel)
  obtain ⟨output', h'⟩ : ∃ output', (compile (.object refitted)).outcome = .ok output' :=
    exists_eq_ok_of_isSome (by decide +kernel)
  have hreached (reached : Text) (hr : ReflTransGen (Authored.References fleet) "ship" reached) :
      reached = "ship" ∨ reached = "gun" := by
    induction hr with
    | refl => exact .inl rfl
    | tail _ hlast ih =>
      obtain ⟨template, turrets, turret, ht, hturrets, hmem, hnamed⟩ := hlast
      obtain rfl | rfl := ih
      · obtain rfl := Json.object.inj (Option.some.inj ht)
        obtain rfl := Json.array.inj (Option.some.inj hturrets)
        obtain rfl := Json.object.inj (List.mem_singleton.mp hmem)
        exact .inr (Json.string.inj (Option.some.inj hnamed)).symm
      · obtain rfl := Json.object.inj (Option.some.inj ht)
        cases hturrets
  have hkept (reached : Text) (hr : ReflTransGen (Authored.References fleet) "ship" reached) :
      Authored.KeepsMounts fleet refitted reached := by
    intro v hv
    obtain rfl | rfl := hreached reached hr
    all_goals
      obtain rfl := Option.some.inj hv
      exact ⟨_, rfl, rfl, rfl⟩
  obtain ⟨table, table', ship, ship', htable, htable', hget, hget', -, -, hsame⟩ :=
    compile_local fleet refitted output output' h h' "ship" _ rfl rfl
  obtain rfl := hsame hkept
  exact ⟨output, output', table, table', _, h, h', htable, htable', hget, hget'⟩

end EntityTable
