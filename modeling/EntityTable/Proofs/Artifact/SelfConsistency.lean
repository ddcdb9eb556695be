import EntityTable.Proofs.Artifact.Members
import EntityTable.Proofs.Compilation
import EntityTable.Proofs.Json.Distinct

/-!
What the templates of an artifact say about each other. Every turret with a type carries the whole
armament list of the template of that name, and every armament with an index belongs to such a
turret.
-/

namespace EntityTable

/-- Whether an armament's object carries the index of the turret at a position. -/
def carriedAt (position : Nat) (armament : Entries Json) : Bool :=
  match armament.get? "turret" with
  | some (.int i) => i = position
  | _ => false

/-- A template's mounts fit each other and the other templates of its table. -/
structure SelfConsistent (table : Entries Json) (turrets armaments : List (Entries Json)) :
    Prop where
  /-- Armaments without an index come first, and indices do not fall. -/
  blocks : ∃ own inherited, armaments = own ++ inherited ∧
    (∀ armament ∈ own, ("turret" : Text) ∉ armament.keys) ∧
    ∃ indices : List Nat, inherited.map (·.get? "turret") =
      indices.map (fun i : Nat => some (.int i)) ∧ indices.Pairwise (· ≤ ·)
  /-- An index is that of a turret whose type is a key of the table. -/
  carrier : ∀ armament ∈ armaments, ∀ index, armament.get? "turret" = some index →
    ∃ (position : Nat) (turret : Entries Json) (target : Text), index = .int position ∧
      turrets[position]? = some turret ∧ turret.get? "type" = some (.string target) ∧
      target ∈ table.keys
  /-- A turret with a type carries all armaments of the template of that name. -/
  carried : ∀ (position : Nat) (turret : Entries Json) (type : Json),
    turrets[position]? = some turret → turret.get? "type" = some type →
      ∃ target template whole, type = .string target ∧ table.get? target = some template ∧
        template.Mounts .armaments whole ∧
        (armaments.filter (carriedAt position)).map (·.without ["turret"]) =
          whole.map (·.without ["turret"])
  /-- A turret without a type carries none. -/
  idle : ∀ (position : Nat) (turret : Entries Json), turrets[position]? = some turret →
    turret.get? "type" = none → armaments.filter (carriedAt position) = []
  /-- The shorthand for mirrored pairs is used up. -/
  expanded : ∀ mount ∈ turrets ++ armaments, ("symmetrical" : Text) ∉ mount.keys

/-- A table whose templates are ready to inherit, and can. -/
structure Table.Resolvable (table : Table) : Prop where
  normalized : ∀ key template, (key, template) ∈ table → template.Normalized
  collected : ∀ entry ∈ table, ∃ armaments, table.collect [] entry.1 = .ok armaments

namespace Table.Resolvable

variable {table : Table} {key : Text} {template : Template}

theorem full_eq (h : table.Resolvable) (ht : table.get? key = some template) :
    table.full key = template.armaments ++ Turret.allCarry table.full template.turrets 0 := by
  obtain ⟨armaments, hc⟩ := h.collected _ (Entries.mem_of_get? ht)
  exact full_eq_append hc ht

theorem lacks_of_mem_full (h : table.Resolvable) (ht : table.get? key = some template)
    {a : Armament} (ha : a ∈ table.full key) : a.extra.Lacks Authored.Armament.knownKeys := by
  obtain ⟨armaments, hc⟩ := h.collected _ (Entries.mem_of_get? ht)
  obtain ⟨source, behind, hs, own, hown, hcopy⟩ := mem_full hc ha
  have hlacks := (h.normalized _ _ (Entries.mem_of_get? hs)).armaments own hown
  rcases hcopy with rfl | ⟨i, rfl⟩
  · exact hlacks
  · exact hlacks

theorem target_known (h : table.Resolvable) (ht : table.get? key = some template)
    {turret : Turret} {target : Text} (hm : turret ∈ template.turrets)
    (hr : turret.reference = some target) : target ∈ table.keys := by
  obtain ⟨armaments, hc⟩ := h.collected _ (Entries.mem_of_get? ht)
  exact (collect_target hc ((references_iff_of_get? ht).mpr ⟨turret, hm, hr⟩)).1

/-- The index of an armament picks out what its turret carries from the full list. -/
theorem filter_full (h : table.Resolvable) (ht : table.get? key = some template) {position : Nat}
    {turret : Turret} (hp : template.turrets[position]? = some turret) :
    (table.full key).filter (·.turret = some (position : Int)) =
      turret.carries table.full position := by
  have hown : template.armaments.filter (·.turret = some (position : Int)) = [] := by
    rw [List.filter_eq_nil_iff]
    intro a ha
    simp [(h.normalized _ _ (Entries.mem_of_get? ht)).uncarried a ha]
  have hall := @Turret.filter_allCarry table.full turret 0 position template.turrets hp
  rw [Nat.zero_add] at hall
  rw [h.full_eq ht, List.filter_append, hown, List.nil_append, hall]

end Table.Resolvable

theorem carriedAt_members {a : Armament} (h : a.extra.Lacks Authored.Armament.knownKeys)
    (position : Nat) :
    carriedAt position a.members = decide (a.turret = some (position : Int)) := by
  unfold carriedAt
  rw [Armament.get?_turret_members h]
  cases a.turret <;> simp

namespace Table

/-- The object of a table whose templates have their full armament lists. -/
def rendered (table : Table) : Entries Json :=
  table.mapValues fun key template => { template with armaments := table.full key }.toJson

variable {table : Table} {key : Text} {template : Template}

theorem filter_rendered (h : table.Resolvable) (ht : table.get? key = some template)
    {position : Nat} {turret : Turret} (hp : template.turrets[position]? = some turret) :
    ((table.full key).map Armament.members).filter (carriedAt position) =
      (turret.carries table.full position).map Armament.members := by
  rw [List.filter_map, ← h.filter_full ht hp]
  congr 1
  apply List.filter_congr
  intro a ha
  exact carriedAt_members (h.lacks_of_mem_full ht ha) position

theorem blocks_rendered (h : table.Resolvable) (ht : table.get? key = some template) :
    ∃ own inherited, (table.full key).map Armament.members = own ++ inherited ∧
      (∀ armament ∈ own, ("turret" : Text) ∉ Entries.keys armament) ∧
      ∃ indices : List Nat, inherited.map (Entries.get? "turret") =
        indices.map (fun i : Nat => some (.int i)) ∧ indices.Pairwise (· ≤ ·) := by
  have hfull := h.full_eq ht
  obtain ⟨indices, hmap, hsorted, -⟩ :=
    Turret.map_turret_allCarry table.full template.turrets 0
  refine ⟨template.armaments.map Armament.members,
    (Turret.allCarry table.full template.turrets 0).map Armament.members, ?_, ?_, indices, ?_,
    hsorted⟩
  · rw [hfull, List.map_append]
  · intro armament ha
    obtain ⟨a, hown, rfl⟩ := List.mem_map.mp ha
    have hnormal := h.normalized _ _ (Entries.mem_of_get? ht)
    rw [← Entries.get?_eq_none_iff, Armament.get?_turret_members (hnormal.armaments a hown),
      hnormal.uncarried a hown]
    rfl
  · have hindex : (Turret.allCarry table.full template.turrets 0).map
        (fun a => Entries.get? "turret" a.members) =
          ((Turret.allCarry table.full template.turrets 0).map (·.turret)).map
            (Option.map Json.int) := by
      rw [List.map_map]
      apply List.map_congr_left
      intro a ha
      have hmem : a ∈ table.full key := hfull ▸ List.mem_append_right _ ha
      exact Armament.get?_turret_members (h.lacks_of_mem_full ht hmem)
    rw [List.map_map]
    refine hindex.trans ?_
    rw [hmap, List.map_map]
    rfl

theorem carrier_rendered (h : table.Resolvable) (ht : table.get? key = some template)
    {armament : Entries Json} (ha : armament ∈ (table.full key).map Armament.members)
    {index : Json} (hi : armament.get? "turret" = some index) :
    ∃ (position : Nat) (turret : Entries Json) (target : Text), index = .int position ∧
      (template.turrets.map Turret.members)[position]? = some turret ∧
      turret.get? "type" = some (.string target) ∧ target ∈ table.keys := by
  have hnormal := h.normalized _ _ (Entries.mem_of_get? ht)
  obtain ⟨a, hmem, rfl⟩ := List.mem_map.mp ha
  rw [Armament.get?_turret_members (h.lacks_of_mem_full ht hmem)] at hi
  rw [h.full_eq ht, List.mem_append] at hmem
  rcases hmem with hown | hcarried
  · simp [hnormal.uncarried a hown] at hi
  · obtain ⟨position, turret, hp, hc⟩ := Turret.mem_allCarry hcarried
    have hturret : turret ∈ template.turrets := List.mem_of_getElem? hp
    obtain ⟨target, hr, -⟩ := Turret.mem_carries.mp hc
    refine ⟨position, turret.members, target, ?_, by simp [hp], ?_, h.target_known ht hturret hr⟩
    · simpa [Turret.turret_of_mem_carries hc] using hi.symm
    · rw [Turret.get?_type_members (hnormal.turrets turret hturret), hr]
      rfl

theorem carried_rendered (h : table.Resolvable) (ht : table.get? key = some template)
    {position : Nat} {turret : Turret} {target : Text}
    (hp : template.turrets[position]? = some turret) (hr : turret.reference = some target) :
    (((table.full key).map Armament.members).filter (carriedAt position)).map
        (·.without ["turret"]) =
      ((table.full target).map Armament.members).map (·.without ["turret"]) := by
  obtain ⟨behind, hb⟩ := Entries.exists_get?_of_mem_keys
    (h.target_known ht (List.mem_of_getElem? hp) hr)
  have hcarries : turret.carries table.full position =
      (table.full target).map (·.inherit position) := by
    simp [Turret.carries, hr]
  rw [filter_rendered h ht hp, hcarries, List.map_map, List.map_map, List.map_map]
  apply List.map_congr_left
  intro a ha
  have hlacks := h.lacks_of_mem_full hb ha
  have hcopy : (a.inherit position).extra.Lacks Authored.Armament.knownKeys := hlacks
  exact (Armament.without_turret_members hcopy).trans (Armament.without_turret_members hlacks).symm

theorem selfConsistent_rendered (h : table.Resolvable) (ht : table.get? key = some template) :
    SelfConsistent table.rendered (template.turrets.map Turret.members)
      ((table.full key).map Armament.members) := by
  have hnormal := h.normalized _ _ (Entries.mem_of_get? ht)
  have hkeys : table.rendered.keys = table.keys := Entries.keys_mapValues _ table
  have hturret (position : Nat) (object : Entries Json)
      (ho : (template.turrets.map Turret.members)[position]? = some object) :
      ∃ turret, template.turrets[position]? = some turret ∧ turret.members = object ∧
        object.get? "type" = turret.reference.map .string := by
    rw [List.getElem?_map, Option.map_eq_some_iff] at ho
    obtain ⟨turret, hp, rfl⟩ := ho
    exact ⟨turret, hp, rfl,
      Turret.get?_type_members (hnormal.turrets turret (List.mem_of_getElem? hp))⟩
  refine ⟨blocks_rendered h ht, ?_, ?_, ?_, ?_⟩
  · intro armament ha index hi
    rw [hkeys]
    exact carrier_rendered h ht ha hi
  · intro position object type ho htype
    obtain ⟨turret, hp, -, hreference⟩ := hturret position object ho
    rw [hreference, Option.map_eq_some_iff] at htype
    obtain ⟨target, hr, rfl⟩ := htype
    obtain ⟨behind, hb⟩ := Entries.exists_get?_of_mem_keys
      (h.target_known ht (List.mem_of_getElem? hp) hr)
    refine ⟨target, { behind with armaments := table.full target }.toJson, _, rfl, ?_,
      Template.mounts_armaments _, carried_rendered h ht hp hr⟩
    rw [rendered, Entries.get?_mapValues, hb]
    rfl
  · intro position object ho htype
    obtain ⟨turret, hp, -, hreference⟩ := hturret position object ho
    rw [hreference, Option.map_eq_none_iff] at htype
    rw [filter_rendered h ht hp, Turret.carries, htype]
    rfl
  · intro mount hm
    rcases List.mem_append.mp hm with hm | hm
    · obtain ⟨turret, hmem, rfl⟩ := List.mem_map.mp hm
      exact Turret.symmetrical_not_mem_members (hnormal.turrets turret hmem)
    · obtain ⟨a, hmem, rfl⟩ := List.mem_map.mp hm
      exact Armament.symmetrical_not_mem_members (h.lacks_of_mem_full ht hmem)

end Table

/-- Every template of an artifact lists its mounts, and they fit each other and the table. -/
theorem compile_selfConsistent (input output : Json) (hd : input.KeysDistinct)
    (h : (compile input).outcome = .ok output) :
    ∃ table, output = .object table ∧ ∀ key template, (key, template) ∈ table →
      ∃ turrets armaments, template.Mounts .turrets turrets ∧
        template.Mounts .armaments armaments ∧ SelfConsistent table turrets armaments := by
  obtain ⟨members, authored, normalized, rfl, hread, hcompiled, hcollect, rfl⟩ := compile_eq_ok h
  obtain ⟨hkeys, hnormal⟩ := Authored.Table.normalized_of_compileEach hread hcompiled
  have hn : normalized.keys.Nodup := hkeys ▸ hd.keys_nodup
  have hr : normalized.Resolvable := ⟨hnormal, hcollect⟩
  have htable : (normalized.mapValues fun key template =>
      { template with armaments := normalized.full key }).mapValues (fun _ t => t.toJson) =
        normalized.rendered := by
    simp [Entries.mapValues, Table.rendered]
  refine ⟨normalized.rendered, by rw [Table.toJson, htable], ?_⟩
  intro key template hm
  obtain ⟨⟨key', t⟩, hmem, heq⟩ := List.mem_map.mp hm
  obtain ⟨rfl, rfl⟩ := Prod.mk.inj heq
  have hself := Table.selfConsistent_rendered hr (Entries.get?_of_mem hn hmem)
  exact ⟨_, _, Template.mounts_turrets _, Template.mounts_armaments _, hself⟩

/-- A ship with a gun on either side, and the gun, mirrored itself. -/
def broadside : Json :=
  .object [("ship", .object [("armaments", .array [.object [("type", .string "anchor")]]),
      ("turrets", .array [.object [("type", .string "gun"), ("symmetrical", .bool true)]])]),
    ("gun", .object [("armaments",
      .array [.object [("symmetrical", .bool true), ("positionSide", .int 1)]])])]

/-- The fleet compiles, so its artifact is consistent. -/
theorem compile_broadside : broadside.KeysDistinct ∧
    ∃ output, (compile broadside).outcome = .ok output ∧
      ∃ table, output = .object table ∧ ∀ key template, (key, template) ∈ table →
        ∃ turrets armaments, template.Mounts .turrets turrets ∧
          template.Mounts .armaments armaments ∧ SelfConsistent table turrets armaments := by
  have hd : broadside.KeysDistinct := by
    simp only [broadside, Json.KeysDistinct, Json.MembersDistinct, Json.ItemsDistinct,
      Entries.keys, and_true]
    decide
  obtain ⟨output, h⟩ : ∃ output, (compile broadside).outcome = .ok output :=
    exists_eq_ok_of_isSome (by decide +kernel)
  exact ⟨hd, output, h, compile_selfConsistent broadside output hd h⟩

end EntityTable
