import EntityTable.Proofs.Authored.Faults
import EntityTable.Proofs.Json.Distinct
import EntityTable.Proofs.Verdict

/-!
Where in the authored table a report points. The report of a malformed field names the place at
which the fault stands. The report of an unknown reference counts turrets as they are compiled, so
that every mirrored pair before the turret at fault moves it on by one.
-/

namespace EntityTable

/-- The first turret of a template that names what the table lacks. -/
structure Table.FirstLost (table : Table) (owner : Text) (position : Nat) (target : Text) :
    Prop where
  named : table.named? owner position = some target
  absent : target ∉ table.keys
  known : ∀ earlier < position, ∀ name, table.named? owner earlier = some name →
    name ∈ table.keys

theorem Table.firstLost_of_collect {table : Table} {visiting : List Text} {key owner : Text}
    {position : Nat} {target : Text}
    (h : table.collect visiting key = .error (.unknownReference owner position target)) :
    table.FirstLost owner position target := by
  induction visiting, key using collect.induct table with
  | case1 visiting key hm =>
    rw [collect_of_mem (by simpa using hm)] at h
    cases h
  | case2 visiting key hm hn =>
    rw [collect_of_unknown (by simpa using hm) (Entries.get?_eq_none_iff.mp hn)] at h
    cases h
  | case3 visiting key hm template ht ih =>
    rw [collect_of_get? (by simpa using hm) ht, map_eq_error_iff] at h
    obtain ⟨before, turret, after, name, hsplit, hr, hb, hd⟩ := first_failure_of_collectFrom h
    rcases hd with ⟨habsent, hfailure⟩ | ⟨-, hvisit⟩
    · rw [Nat.zero_add] at hfailure
      cases hfailure
      refine ⟨by simp [named?_of_get? ht, hsplit, hr], habsent, fun earlier hlt known hname => ?_⟩
      rw [named?_of_get? ht, hsplit, List.getElem?_append_left hlt,
        List.getElem?_eq_getElem hlt] at hname
      exact (hb _ (List.getElem_mem hlt) known hname).1
    · exact ih name hvisit

namespace Authored

/-! ### Reports of unknown references -/

/-- An item of a list of turrets that stands for two of them. -/
def isPair (item : Json) : Bool := flagOf (Entries.get? "symmetrical" (objectOf item))

/-- Where the turret at an index is among the compiled ones. -/
def placeOf (turrets : List Json) (index : Nat) : Nat :=
  index + (turrets.take index).countP isPair

theorem placeOf_strictMono (turrets : List Json) : StrictMono (placeOf turrets) := by
  intro earlier index h
  have hpairs : (turrets.take earlier).countP isPair ≤ (turrets.take index).countP isPair :=
    (List.take_sublist_take_left h.le).countP_le
  simp only [placeOf]
  omega

/-- The turret at an index is the first of the template's to name what is not in the table. -/
structure FirstLost (members : Members) (owner : Text) (turrets : List Json) (index : Nat)
    (target : Text) : Prop where
  listed : ∃ template, members.get? owner = some (.object template) ∧
    Entries.get? "turrets" template = some (.array turrets)
  named : ∃ turret, turrets[index]? = some (.object turret) ∧
    Entries.get? "type" turret = some (.string target)
  absent : target ∉ members.keys
  known : ∀ earlier < index, ∀ turret name, turrets[earlier]? = some (.object turret) →
    Entries.get? "type" turret = some (.string name) → name ∈ members.keys

theorem exists_items_of_objectsOf {Shaped : Members → Prop} {v : Option Json}
    (h : AreMounts Shaped v) {index : Nat} {object : Members}
    (hobject : (objectsOf v)[index]? = some object) :
    ∃ items, v = some (.array items) ∧ items[index]? = some (.object object) := by
  obtain ⟨items, item, rfl, hitem, rfl⟩ := getElem?_objectsOf_eq_some_iff.mp hobject
  obtain ⟨object, rfl, -⟩ := h item (List.mem_of_getElem? hitem)
  exact ⟨items, rfl, hitem⟩

/-- Compiled turrets are counted with both turrets of a pair. -/
theorem placeAmong_meaning (turrets : List Json) (index : Nat) :
    placeAmong Turret.symmetrical ((turrets.map objectOf).map Turret.meaning) index =
      placeOf turrets index := by
  rw [placeAmong_map, placeAmong_map]
  rfl

section Tables

variable {members : Members} {normalized : EntityTable.Table}

/-- A compiled template comes from the authored one under its key. -/
theorem Table.exists_source (hshape : Table.Shaped (.object members))
    (hc : (Table.meaning members).compileEach.outcome = .ok normalized) {key : Text}
    {compiled : EntityTable.Template} (h : normalized.get? key = some compiled) :
    ∃ template, members.get? key = some (.object template) ∧ Template.Shaped template ∧
      ((Template.meaning template).compile key).outcome = .ok compiled := by
  have hrel := Table.get?_compileEach hc key
  rw [Table.meaning, Entries.get?_mapValues, h] at hrel
  cases hv : members.get? key with
  | none =>
    rw [hv] at hrel
    cases hrel
  | some v =>
    obtain ⟨template, rfl, hts⟩ := hshape _ (Entries.mem_of_get? hv)
    rw [hv] at hrel
    cases hrel with
    | some hcompiled => exact ⟨template, rfl, hts, hcompiled⟩

/-- The place of an authored turret holds a compiled one that names the same template. -/
theorem Table.named?_placeOf {owner : Text} {compiled : EntityTable.Template}
    (hfound : normalized.get? owner = some compiled) {turrets : List Json}
    (hturrets : compiled.turrets =
      ((turrets.map objectOf).map Turret.meaning).flatMap Turret.expand)
    {index : Nat} {object : Members} (h : turrets[index]? = some (.object object)) :
    normalized.named? owner (placeOf turrets index) = stringOf (Entries.get? "type" object) := by
  have hmeant : ((turrets.map objectOf).map Turret.meaning)[index]? =
      some (Turret.meaning object) := by
    simp [h, objectOf]
  have hown := (Turret.expands _).own index _ hmeant
  rw [placeAmong_meaning] at hown
  rw [EntityTable.Table.named?_of_get? hfound, hturrets, hown]
  rfl

/-- The turret that is lost among the compiled ones is the first that its authored turret stands
for, and that one is the first to be lost among the authored. -/
theorem Table.firstLost_of_normalized (hshape : Table.Shaped (.object members))
    (hc : (Table.meaning members).compileEach.outcome = .ok normalized)
    (hkeys : normalized.keys = members.keys) {owner target : Text} {position : Nat}
    (h : normalized.FirstLost owner position target) :
    ∃ turrets index, FirstLost members owner turrets index target ∧
      position = placeOf turrets index := by
  obtain ⟨compiled, mounted, hfound, hmounted, hr⟩ :=
    EntityTable.Table.named?_eq_some_iff.mp h.named
  obtain ⟨template, hget, hts, hcompiled⟩ := Table.exists_source hshape hc hfound
  have hturrets : compiled.turrets =
      ((objectsOf (Entries.get? "turrets" template)).map Turret.meaning).flatMap Turret.expand :=
    (Template.mounts_of_compile hcompiled).1
  rw [hturrets] at hmounted
  obtain ⟨index, t, ht, hcopy⟩ := (Turret.expands _).covered position mounted hmounted
  have hreference : t.reference = some target := by
    rcases hcopy with ⟨-, rfl⟩ | ⟨-, -, rfl⟩ <;> exact hr
  obtain ⟨turret, hturret, rfl⟩ := Option.map_eq_some_iff.mp (List.getElem?_map ▸ ht)
  obtain ⟨turrets, harray, hlisted⟩ := exists_items_of_objectsOf hts.turrets hturret
  rw [harray] at hturrets hcopy
  have hplace : placeAmong Turret.symmetrical ((turrets.map objectOf).map Turret.meaning) index =
      placeOf turrets index := placeAmong_meaning turrets index
  have hpair : position = placeOf turrets index ∨ position = placeOf turrets index + 1 := by
    rw [← hplace]
    exact hcopy.imp And.left (·.2.1)
  -- behind the first turret of a pair stands one of the same name, which is lost as well
  have hfirst : position = placeOf turrets index := by
    by_contra hne
    have hname := Table.named?_placeOf hfound hturrets hlisted
    exact h.absent (h.known _ (by omega) target (hname.trans hreference))
  refine ⟨turrets, index, ⟨⟨template, hget, harray⟩,
    ⟨turret, hlisted, stringOf_eq_some_iff.mp hreference⟩, hkeys ▸ h.absent, ?_⟩, hfirst⟩
  intro earlier hearlier object name hobject hnamed
  have hname := Table.named?_placeOf hfound hturrets hobject
  rw [← hkeys]
  exact h.known _ (hfirst ▸ placeOf_strictMono turrets hearlier) name
    (hname.trans (stringOf_eq_some_iff.mpr hnamed))

theorem Table.lengthMissing_of_compileEach {authored : Table} {failure : Failure}
    (h : authored.compileEach.outcome = .error failure) :
    ∃ owner derived subtype, failure = .lengthMissing owner derived subtype := by
  rw [Table.compileEach, Logged.outcome_mapM] at h
  obtain ⟨-, entry, -, -, -, hfails⟩ := mapM_eq_error_iff.mp h
  simp only [Logged.outcome_bind] at hfails
  rcases bind_eq_error_iff.mp hfails with hlogs | ⟨_, -, hfails⟩
  · cases hlogs
  rcases bind_eq_error_iff.mp hfails with hfails | ⟨_, -, hreturns⟩
  · rcases Template.compile_eq_error_iff.mp hfails with hrange | ⟨-, hdamage⟩
    · obtain ⟨subtype, -, -, -, rfl⟩ := (Template.deriveRange_eq_error_iff.mp hrange).2
      exact ⟨_, _, subtype, rfl⟩
    · obtain ⟨subtype, -, -, -, rfl⟩ := (Template.deriveDamage_eq_error_iff.mp hdamage).2
      exact ⟨_, _, subtype, rfl⟩
  · cases hreturns

end Tables
end Authored

/-- A compilation fails as it reads the table, for want of a length, or along the references. -/
theorem compile_eq_error {input : Json} {failure : Failure}
    (h : (compile input).outcome = .error failure) :
    Authored.Table.ofJson input = .error failure ∨
      (∃ owner derived subtype, failure = .lengthMissing owner derived subtype) ∨
        ∃ members normalized, input = .object members ∧
          Authored.Table.ofJson (.object members) = .ok (Authored.Table.meaning members) ∧
          (Authored.Table.meaning members).compileEach.outcome = .ok normalized ∧
          ∃ key ∈ normalized.keys, normalized.collect [] key = .error failure := by
  rw [outcome_compile] at h
  rcases bind_eq_error_iff.mp h with hread | ⟨authored, hread, h⟩
  · exact .inl hread
  rcases bind_eq_error_iff.mp h with hcompiled | ⟨normalized, hcompiled, hattached⟩
  · exact .inr (.inl (Authored.Table.lengthMissing_of_compileEach hcompiled))
  obtain ⟨members, rfl⟩ := Authored.Table.exists_members_of_ofJson hread
  obtain rfl := Authored.Table.eq_meaning hread
  rw [map_eq_error_iff, Table.attachInherited,
    Resolver.outcome_attachAll (Resolver.ready_ofTable normalized)] at hattached
  obtain ⟨before, entry, after, hsplit, -, hfails⟩ := mapM_eq_error_iff.mp hattached
  exact .inr (.inr ⟨members, normalized, rfl, hread, hcompiled, entry.1,
    by simp [hsplit, Entries.keys], map_eq_error_iff.mp hfails⟩)

/-- The report of an unknown reference names the first turret that is lost, by its place among the
compiled turrets, and the report of a malformed field names the place of the fault. -/
theorem compile_report_points (input : Json) (hd : input.KeysDistinct) (owner : Text) :
    (∀ position target,
      (compile input).outcome = .error (.unknownReference owner position target) →
        ∃ members turrets index, input = .object members ∧
          Authored.FirstLost members owner turrets index target ∧
          position = Authored.placeOf turrets index ∧
          (Failure.unknownReference owner position target).diagnostic? =
            some ⟨Text.concat ["turret references unknown entity type '", target, "'"], some owner,
              some (FieldPath.mountAttribute .turrets position "type").text⟩) ∧
      ∀ offence path, (compile input).outcome = .error (.malformed offence (some owner) (some path)) →
        ∃ members template, input = .object members ∧
          Entries.get? owner members = some (.object template) ∧
          Authored.Template.AtFault template path offence := by
  -- each kind of report is made at one stage, and the other stages are ruled out
  constructor
  · intro position target h
    rcases compile_eq_error h with hread | ⟨_, _, _, hlength⟩ | hreference
    · rcases Authored.Table.ofJson_eq_error hread with hrefuses | ⟨hlarge, -⟩
      · cases hrefuses with
        | template members key v failure entry refuses => cases refuses
      · cases hlarge
    · cases hlength
    · obtain ⟨members, normalized, rfl, hread, hcompiled, key, -, hcollect⟩ := hreference
      have hkeys := (Authored.Table.normalized_of_compileEach hread hcompiled).1
      obtain ⟨turrets, index, hlost, hposition⟩ := Authored.Table.firstLost_of_normalized
        (Authored.Table.shaped_of_ofJson hread) hcompiled hkeys (Table.firstLost_of_collect hcollect)
      exact ⟨members, turrets, index, rfl, hlost, hposition, rfl⟩
  · intro offence path h
    rcases compile_eq_error h with hread | ⟨_, _, _, hlength⟩ | hreference
    · rcases Authored.Table.ofJson_eq_error hread with hrefuses | ⟨hlarge, -⟩
      · cases hrefuses with
        | template members key v failure entry refuses =>
          cases refuses with
          | atFault template path offence fault =>
            exact ⟨members, template, rfl, Entries.get?_of_mem hd.keys_nodup entry, fault⟩
      · cases hlarge
    · cases hlength
    · obtain ⟨members, normalized, -, -, -, key, hk, hcollect⟩ := hreference
      rcases Table.isReference_of_collect hk hcollect with ⟨_, _, _, hunknown⟩ | ⟨_, hcycle⟩
      · cases hunknown
      · cases hcycle

/-- A ship with a pair of turrets before one that is lost. -/
def lopsided : Json :=
  .object [("ship", .object [("turrets",
    .array [.object [("symmetrical", .bool true)], .object [("type", .string "ghost")]])])]

theorem outcome_compile_lopsided :
    (compile lopsided).outcome = .error (.unknownReference "ship" 2 "ghost") := by
  with_unfolding_all rfl

/-- The second authored turret is reported as the third one. -/
theorem compile_lopsided : lopsided.KeysDistinct ∧
    (compile lopsided).outcome = .error (.unknownReference "ship" 2 "ghost") ∧
    ∃ members turrets index, lopsided = .object members ∧
      Authored.FirstLost members "ship" turrets index "ghost" ∧
      2 = Authored.placeOf turrets index := by
  have hd : lopsided.KeysDistinct := by
    simp only [lopsided, Json.KeysDistinct, Json.MembersDistinct, Json.ItemsDistinct,
      Entries.keys, and_true]
    decide
  obtain ⟨members, turrets, index, heq, hlost, hplace, -⟩ :=
    (compile_report_points lopsided hd "ship").1 2 "ghost" outcome_compile_lopsided
  exact ⟨hd, outcome_compile_lopsided, members, turrets, index, heq, hlost, hplace⟩

/-- There need not even be an authored turret at the position reported. -/
theorem compile_lopsided_beyond : ¬∀ members owner position target,
    (compile (.object members)).outcome = .error (.unknownReference owner position target) →
      ∃ template turrets turret, Entries.get? owner members = some (.object template) ∧
        Entries.get? "turrets" template = some (.array turrets) ∧
        turrets[position]? = some (.object turret) ∧
        Entries.get? "type" turret = some (.string target) := by
  intro hpoints
  obtain ⟨template, turrets, turret, htemplate, hturrets, hturret, -⟩ :=
    hpoints _ "ship" 2 "ghost" outcome_compile_lopsided
  obtain rfl := Json.object.inj (Option.some.inj htemplate)
  obtain rfl := Json.array.inj (Option.some.inj hturrets)
  cases hturret

end EntityTable
