import EntityTable.Proofs.Attributes
import EntityTable.Proofs.Authored.Meaning
import EntityTable.Proofs.Compilation
import EntityTable.Proofs.Inheritance.Defects

/-!
How a compilation ends, told from the authored value alone. Defects of the shape come before
missing lengths, and these before defects of the references; of several defects of one kind the
one that stands first in the table is reported.
-/

namespace EntityTable

open Relation (ReflTransGen TransGen)

namespace Authored

/-! ### Defects of templates -/

/-- A weapon of one of the subtypes, without a length. -/
structure LacksLength (subtypes : List Text) (members : Members) : Prop where
  weapon : members.get? "type" = some (.string "weapon")
  length : IsUnset (members.get? "length")
  subtype : ∃ name ∈ subtypes, members.get? "subtype" = some (.string name)

/-- The authored range is limited by the length, which is missing. -/
def RangeNeedsLength (members : Members) : Prop :=
  ¬IsUnset (members.get? "range") ∧ LacksLength ["shell", "rocket", "missile"] members

/-- The damage is to be derived from the length, which is missing. -/
def DamageNeedsLength (members : Members) : Prop :=
  IsUnset (members.get? "damage") ∧ LacksLength ["torpedo", "rocket", "missile", "shell"] members

/-- What cannot be derived for want of a length; the range goes first. -/
inductive NeedsLength (members : Members) : DerivedAttribute → Prop
  | range (needs : RangeNeedsLength members) : NeedsLength members .range
  | damage (needs : DamageNeedsLength members) (limited : ¬RangeNeedsLength members) :
      NeedsLength members .damage

/-- The template under a key lists a turret of a type. -/
def References (members : Members) (key target : Text) : Prop :=
  ∃ template turrets turret, members.get? key = some (.object template) ∧
    Entries.get? "turrets" template = some (.array turrets) ∧ .object turret ∈ turrets ∧
      Entries.get? "type" turret = some (.string target)

/-- References lead from the template to one that names an unknown key or is on a cycle. -/
def ReachesDefect (members : Members) (key : Text) : Prop :=
  ∃ reached, ReflTransGen (References members) key reached ∧
    ((∃ target, References members reached target ∧ target ∉ members.keys) ∨
      TransGen (References members) reached reached)

/-! ### Lengths -/

section Lengths

variable {members : Members} {owner : Text} {failure : Failure}

theorem Template.weaponSubtype?_meaning {subtype : WeaponSubtype} :
    (Template.meaning members).weaponSubtype? = some subtype ↔
      members.get? "type" = some (.string "weapon") ∧
        members.get? "subtype" = some (.string subtype.name) := by
  rw [Template.weaponSubtype?_eq_some_iff]
  exact and_congr stringOf_eq_some_iff stringOf_eq_some_iff

/-- The subtypes that need a length, by name and as what they are. -/
theorem lacksLength_iff {needs : WeaponSubtype → Prop} {subtypes : List Text}
    {derived : DerivedAttribute} (hshape : Template.Shaped members)
    (hfit : Template.IntegersFit members)
    (hneeds : ∀ subtype : WeaponSubtype, needs subtype ↔ subtype.name ∈ subtypes) :
    (∃ subtype, (Template.meaning members).weaponSubtype? = some subtype ∧ needs subtype ∧
        (Template.meaning members).length = none ∧
          failure = .lengthMissing owner derived subtype) ↔
      LacksLength subtypes members ∧ ∃ subtype : WeaponSubtype,
        members.get? "subtype" = some (.string subtype.name) ∧
          failure = .lengthMissing owner derived subtype := by
  have hlength : (Template.meaning members).length = none ↔ IsUnset (members.get? "length") :=
    numberOf_eq_none_iff hshape.length (hfit.attributes "length" (by simp))
  simp only [Template.weaponSubtype?_meaning, hlength, hneeds]
  constructor
  · intro h
    obtain ⟨subtype, ⟨hweapon, hsub⟩, hname, hunset, rfl⟩ := h
    exact ⟨⟨hweapon, hunset, subtype.name, hname, hsub⟩, subtype, hsub, rfl⟩
  · intro h
    obtain ⟨⟨hweapon, hunset, name, hname, hsub⟩, subtype, hsub', rfl⟩ := h
    obtain rfl : name = subtype.name := by simpa [hsub] using hsub'
    exact ⟨subtype, ⟨hweapon, hsub⟩, hname, hunset, rfl⟩

theorem Template.deriveRange_meaning (hshape : Template.Shaped members)
    (hfit : Template.IntegersFit members) :
    (Template.meaning members).deriveRange owner = .error failure ↔ RangeNeedsLength members ∧
      ∃ subtype : WeaponSubtype, members.get? "subtype" = some (.string subtype.name) ∧
        failure = .lengthMissing owner .range subtype := by
  have hrange : (Template.meaning members).range = none ↔ IsUnset (members.get? "range") :=
    numberOf_eq_none_iff hshape.range (hfit.attributes "range" (by simp))
  have hneeds (subtype : WeaponSubtype) : subtype.ceilingCurve?.isSome ↔
      subtype.name ∈ (["shell", "rocket", "missile"] : List Text) := by
    cases subtype <;> decide
  rw [Template.deriveRange_eq_error_iff, ne_eq, hrange, lacksLength_iff hshape hfit hneeds,
    RangeNeedsLength, and_assoc]

theorem Template.deriveDamage_meaning (hshape : Template.Shaped members)
    (hfit : Template.IntegersFit members) :
    ((Template.meaning members).deriveDamage owner).outcome = .error failure ↔
      DamageNeedsLength members ∧
        ∃ subtype : WeaponSubtype, members.get? "subtype" = some (.string subtype.name) ∧
          failure = .lengthMissing owner .damage subtype := by
  have hdamage : (Template.meaning members).damage = none ↔ IsUnset (members.get? "damage") :=
    numberOf_eq_none_iff hshape.damage (hfit.attributes "damage" (by simp))
  have hneeds (subtype : WeaponSubtype) : (∃ curve, subtype.damageRule = .curve curve) ↔
      subtype.name ∈ (["torpedo", "rocket", "missile", "shell"] : List Text) := by
    rw [WeaponSubtype.exists_damageRule_curve_iff]
    cases subtype <;> decide
  rw [Template.deriveDamage_eq_error_iff, hdamage, lacksLength_iff hshape hfit hneeds,
    DamageNeedsLength, and_assoc]

theorem Template.compile_meaning_eq_error_iff (hshape : Template.Shaped members)
    (hfit : Template.IntegersFit members) :
    ((Template.meaning members).compile owner).outcome = .error failure ↔
      ∃ derived, NeedsLength members derived ∧
        ∃ subtype : WeaponSubtype, members.get? "subtype" = some (.string subtype.name) ∧
          failure = .lengthMissing owner derived subtype := by
  have hrange (failure : Failure) :=
    @Template.deriveRange_meaning members owner failure hshape hfit
  rw [Template.compile_eq_error_iff, hrange, Template.deriveDamage_meaning hshape hfit]
  constructor
  · intro h
    rcases h with ⟨hneeds, hfailure⟩ | ⟨⟨range, hok⟩, hneeds, subtype, hsub, hfailure⟩
    · exact ⟨.range, .range hneeds, hfailure⟩
    · have hlimited : ¬RangeNeedsLength members := by
        intro hr
        have herror := (hrange _).mpr ⟨hr, subtype, hsub, rfl⟩
        rw [hok] at herror
        cases herror
      exact ⟨.damage, .damage hneeds hlimited, subtype, hsub, hfailure⟩
  · intro h
    obtain ⟨derived, hneeds, hfailure⟩ := h
    cases hneeds with
    | range hneeds => exact .inl ⟨hneeds, hfailure⟩
    | damage hneeds hlimited =>
      refine .inr ⟨?_, hneeds, hfailure⟩
      cases hderived : (Template.meaning members).deriveRange owner with
      | ok range => exact ⟨range, rfl⟩
      | error failure' => exact absurd ((hrange failure').mp hderived).1 hlimited

end Lengths

/-- Nothing is missing that the template needs. -/
def Derivable (v : Json) : Prop :=
  ∀ template derived, v = .object template → ¬NeedsLength template derived

section Tables

variable {members : Members}

theorem Table.outcome_compileEach_meaning :
    (Table.meaning members).compileEach.outcome = members.mapM fun entry =>
      ((Template.meaning (objectOf entry.2)).compile entry.1).outcome.map fun t =>
        (entry.1, t) := by
  rw [Table.compileEach, Logged.outcome_mapM, Table.meaning, Entries.mapValues, List.mapM_map]
  congr 1
  funext entry
  simp only [Logged.outcome_bind]
  rfl

theorem Table.template_of_mem (hshape : Table.Shaped (.object members))
    (hfit : Table.IntegersFit (.object members)) {entry : Text × Json} (he : entry ∈ members) :
    ∃ template, entry.2 = .object template ∧ Template.Shaped template ∧
      Template.IntegersFit template := by
  obtain ⟨template, htemplate, hts⟩ := hshape entry he
  exact ⟨template, htemplate, hts, hfit entry he template htemplate⟩

theorem Table.exists_compile_meaning_of_derivable (hshape : Table.Shaped (.object members))
    (hfit : Table.IntegersFit (.object members)) {entry : Text × Json} (he : entry ∈ members)
    (h : Derivable entry.2) :
    ∃ t, ((Template.meaning (objectOf entry.2)).compile entry.1).outcome = .ok t := by
  obtain ⟨template, htemplate, hts, htf⟩ := Table.template_of_mem hshape hfit he
  cases hc : ((Template.meaning (objectOf entry.2)).compile entry.1).outcome with
  | ok t => exact ⟨t, rfl⟩
  | error failure =>
    rw [htemplate, objectOf, Template.compile_meaning_eq_error_iff hts htf] at hc
    obtain ⟨derived, hneeds, -⟩ := hc
    exact absurd hneeds (h template derived htemplate)

/-- The first template that lacks a length decides the failure of the first phase. -/
theorem Table.compileEach_meaning_eq_error (hshape : Table.Shaped (.object members))
    (hfit : Table.IntegersFit (.object members)) {before after : Members} {key : Text}
    {template : Members} {derived : DerivedAttribute}
    (hsplit : members = before ++ (key, .object template) :: after)
    (hbefore : ∀ entry ∈ before, Derivable entry.2) (hneeds : NeedsLength template derived) :
    ∃ subtype : WeaponSubtype, template.get? "subtype" = some (.string subtype.name) ∧
      (Table.meaning members).compileEach.outcome =
        .error (.lengthMissing key derived subtype) := by
  have hmem : (key, .object template) ∈ members := by simp [hsplit]
  obtain ⟨template', heq, hts, htf⟩ := Table.template_of_mem hshape hfit hmem
  obtain rfl : template = template' := Json.object.inj heq
  obtain ⟨subtype, hsub⟩ : ∃ subtype : WeaponSubtype,
      template.get? "subtype" = some (.string subtype.name) := by
    have hlacks : ∃ subtypes : List Text, LacksLength subtypes template ∧
        ∀ name ∈ subtypes, ∃ subtype : WeaponSubtype, name = subtype.name := by
      cases hneeds with
      | range hneeds =>
        refine ⟨_, hneeds.2, ?_⟩
        simp only [List.forall_mem_cons]
        exact ⟨⟨.shell, rfl⟩, ⟨.rocket, rfl⟩, ⟨.missile, rfl⟩, by simp⟩
      | damage hneeds _ =>
        refine ⟨_, hneeds.2, ?_⟩
        simp only [List.forall_mem_cons]
        exact ⟨⟨.torpedo, rfl⟩, ⟨.rocket, rfl⟩, ⟨.missile, rfl⟩, ⟨.shell, rfl⟩, by simp⟩
    obtain ⟨subtypes, hlacks, hnamed⟩ := hlacks
    obtain ⟨name, hname, hsub⟩ := hlacks.subtype
    obtain ⟨subtype, rfl⟩ := hnamed name hname
    exact ⟨subtype, hsub⟩
  have hfails : ((Template.meaning template).compile key).outcome =
      .error (.lengthMissing key derived subtype) :=
    (Template.compile_meaning_eq_error_iff hts htf).mpr ⟨derived, hneeds, subtype, hsub, rfl⟩
  refine ⟨subtype, hsub, ?_⟩
  rw [Table.outcome_compileEach_meaning, mapM_eq_error_iff]
  refine ⟨before, _, after, hsplit, ?_, map_eq_error_iff.mpr hfails⟩
  intro entry he
  obtain ⟨t, ht⟩ := Table.exists_compile_meaning_of_derivable hshape hfit
    (hsplit ▸ List.mem_append_left _ he) (hbefore entry he)
  exact ⟨(entry.1, t), by rw [ht]; rfl⟩

theorem Table.exists_compileEach_meaning (hshape : Table.Shaped (.object members))
    (hfit : Table.IntegersFit (.object members)) (h : ∀ entry ∈ members, Derivable entry.2) :
    ∃ normalized, (Table.meaning members).compileEach.outcome = .ok normalized := by
  cases hc : (Table.meaning members).compileEach.outcome with
  | ok normalized => exact ⟨normalized, rfl⟩
  | error failure =>
    rw [Table.outcome_compileEach_meaning, mapM_eq_error_iff] at hc
    obtain ⟨before, entry, after, hsplit, -, hfails⟩ := hc
    have hmem : entry ∈ members := by simp [hsplit]
    obtain ⟨t, ht⟩ := Table.exists_compile_meaning_of_derivable hshape hfit hmem (h entry hmem)
    rw [ht] at hfails
    cases hfails

/-! ### References -/

theorem Turret.exists_mem_expand_iff {t : Turret} {reference : Option Text} :
    (∃ mounted ∈ t.expand, mounted.reference = reference) ↔ t.reference = reference := by
  constructor
  · rintro ⟨mounted, hm, rfl⟩
    rcases mem_expand_iff.mp hm with rfl | ⟨-, rfl⟩ <;> rfl
  · rintro rfl
    exact ⟨t.mounted, mem_expand_iff.mpr (.inl rfl), rfl⟩

theorem Table.references_normalized_iff (hshape : Table.Shaped (.object members))
    {normalized : EntityTable.Table}
    (hc : (Table.meaning members).compileEach.outcome = .ok normalized) (key target : Text) :
    normalized.References key target ↔ References members key target := by
  have hrel := Table.get?_compileEach hc key
  rw [Table.meaning, Entries.get?_mapValues] at hrel
  cases hget : members.get? key with
  | none =>
    rw [hget] at hrel
    have hnone : normalized.get? key = none := by
      generalize Entries.get? key normalized = found at hrel
      cases hrel
      rfl
    constructor
    · intro href
      exact absurd (EntityTable.Table.mem_keys_of_references href)
        (Entries.get?_eq_none_iff.mp hnone)
    · intro href
      obtain ⟨template, turrets, turret, hsome, -⟩ := href
      simp [hget] at hsome
  | some v =>
    obtain ⟨template, hv, hts⟩ := hshape _ (Entries.mem_of_get? hget)
    obtain rfl : v = .object template := hv
    rw [hget] at hrel
    obtain ⟨compiled, hfound, hcompiled⟩ : ∃ compiled, normalized.get? key = some compiled ∧
        ((Template.meaning template).compile key).outcome = .ok compiled := by
      generalize Entries.get? key normalized = found at hrel
      cases hrel with
      | some h => exact ⟨_, rfl, h⟩
    have hturrets : compiled.turrets = (Template.meaning template).turrets.flatMap Turret.expand :=
      (Template.mounts_of_compile hcompiled).1
    have hmounted : (∃ mounted ∈ compiled.turrets, mounted.reference = some target) ↔
        ∃ object ∈ objectsOf (Entries.get? "turrets" template),
          Entries.get? "type" object = some (.string target) := by
      have hsaid (object : Members) : (Turret.meaning object).reference = some target ↔
          Entries.get? "type" object = some (.string target) := stringOf_eq_some_iff
      rw [hturrets]
      simp only [List.mem_flatMap, Template.meaning, List.mem_map, exists_exists_and_eq_and,
        ← hsaid, ← Turret.exists_mem_expand_iff]
      grind
    rw [EntityTable.Table.references_iff_of_get? hfound, hmounted]
    simp only [mem_objectsOf_iff hts.turrets, References, hget, Option.some.injEq,
      Json.object.injEq]
    grind

theorem Table.reachesDefect_normalized_iff (hshape : Table.Shaped (.object members))
    {normalized : EntityTable.Table}
    (hc : (Table.meaning members).compileEach.outcome = .ok normalized) (key : Text) :
    normalized.ReachesDefect key ↔ ReachesDefect members key := by
  have href : normalized.References = References members := by
    funext key target
    exact propext (Table.references_normalized_iff hshape hc key target)
  have hkeys : normalized.keys = members.keys := by
    rw [keys_eq_of_forall₂ (entries_of_compileEach hc) fun _ _ hr => hr.1, Table.meaning,
      Entries.keys_mapValues]
  rw [EntityTable.Table.ReachesDefect, ReachesDefect, href, hkeys]

end Tables

end Authored

/-! ### Verdicts -/

/-- The failures of a walk along references. -/
def Failure.IsReference (failure : Failure) : Prop :=
  (∃ owner position target, failure = .unknownReference owner position target) ∨
    ∃ cycle, failure = .referenceCycle cycle

theorem Table.isReference_of_collect {table : Table} {key : Text} {failure : Failure}
    (hk : key ∈ table.keys) (h : table.collect [] key = .error failure) :
    failure.IsReference := by
  obtain ⟨positions, ⟨passed, target, -, -, hdefect⟩, -⟩ :=
    (Table.collect_eq_error_iff hk failure).mp h
  cases hdefect with
  | unknown owner position => exact .inl ⟨owner, position, target, rfl⟩
  | cycle front loop => exact .inr ⟨_, rfl⟩

/-- How the compilation of a table ends whose shape is right. -/
structure Verdict (members : Entries Json) (outcome : Except Failure Json) : Prop where
  /-- The first template that lacks a length is reported, about its range if that needs it. -/
  length : ∀ before key template after derived,
    members = before ++ (key, .object template) :: after →
      (∀ entry ∈ before, Authored.Derivable entry.2) → Authored.NeedsLength template derived →
      ∃ subtype : WeaponSubtype, Entries.get? "subtype" template = some (.string subtype.name) ∧
        outcome = .error (.lengthMissing key derived subtype) ∧
        (Failure.lengthMissing key derived subtype).diagnostic? =
          some ⟨Text.concat ["length is required to derive ", derived.name, " for ", subtype.name,
            " weapons"], some key, some "length"⟩
  /-- If all lengths are there, the first template that reaches a defect is reported as resolving
  it would. -/
  reference : (∀ entry ∈ members, Authored.Derivable entry.2) →
    ∃ authored normalized, Authored.Table.ofJson (.object members) = .ok authored ∧
      authored.compileEach.outcome = .ok normalized ∧
      ∀ before key v after, members = before ++ (key, v) :: after →
        (∀ entry ∈ before, ¬Authored.ReachesDefect members entry.1) →
        Authored.ReachesDefect members key →
          ∃ failure : Failure, failure.IsReference ∧ outcome = .error failure ∧
            ((Resolver.ofTable normalized).resolve key).2.outcome = .error failure
  /-- A table without a defect compiles, to an artifact with its keys in their order. -/
  success : (∀ entry ∈ members, Authored.Derivable entry.2) →
    (∀ entry ∈ members, ¬Authored.ReachesDefect members entry.1) →
      ∃ table : Entries Json, outcome = .ok (.object table) ∧ table.keys = members.keys

namespace Table

variable {table : Table}

theorem exists_collect_of_not_reachesDefect {key : Text} (hk : key ∈ table.keys)
    (h : ¬table.ReachesDefect key) : ∃ armaments, table.collect [] key = .ok armaments := by
  cases hc : table.collect [] key with
  | ok armaments => exact ⟨armaments, rfl⟩
  | error failure => exact absurd ((exists_error_iff hk).mp ⟨failure, hc⟩) h

/-- The first key that reaches a defect decides the failure of the second phase. -/
theorem mapM_attached_eq_error {before after : List Text} {key : Text}
    (hkeys : table.keys = before ++ key :: after)
    (hbefore : ∀ k ∈ before, ¬table.ReachesDefect k) (h : table.ReachesDefect key) :
    ∃ failure : Failure, failure.IsReference ∧ table.collect [] key = .error failure ∧
      table.mapM table.attached = .error failure := by
  have hk : key ∈ table.keys := by simp [hkeys]
  obtain ⟨failure, hfails⟩ := (exists_error_iff hk).mpr h
  refine ⟨failure, isReference_of_collect hk hfails, hfails, ?_⟩
  obtain ⟨front, back, hsplit, hfront, hback⟩ := List.map_eq_append_iff.mp hkeys
  obtain ⟨entry, rest, rfl, rfl, -⟩ := List.map_eq_cons_iff.mp hback
  refine mapM_eq_error_iff.mpr ⟨front, entry, rest, hsplit, ?_, map_eq_error_iff.mpr hfails⟩
  intro passed hp
  have hmem : passed.1 ∈ before := hfront ▸ List.mem_map_of_mem hp
  have hknown : passed.1 ∈ table.keys := hkeys ▸ List.mem_append_left _ hmem
  obtain ⟨armaments, ha⟩ := exists_collect_of_not_reachesDefect hknown (hbefore _ hmem)
  exact ⟨(passed.1, { passed.2 with armaments }), by rw [attached, ha]; rfl⟩

theorem exists_mapM_attached (h : ∀ key ∈ table.keys, ¬table.ReachesDefect key) :
    ∃ full : Table, full.keys = table.keys ∧ table.mapM table.attached = .ok full := by
  cases hm : table.mapM table.attached with
  | ok full =>
    refine ⟨full, keys_eq_of_forall₂ (mapM_eq_ok_iff.mp hm) ?_, rfl⟩
    intro entry result hr
    unfold attached at hr
    cases hc : table.collect [] entry.1 with
    | error failure => rw [hc] at hr; cases hr
    | ok armaments =>
      rw [hc] at hr
      rw [← Except.ok.inj hr]
  | error failure =>
    obtain ⟨before, entry, after, hsplit, -, hfails⟩ := mapM_eq_error_iff.mp hm
    have hk : entry.1 ∈ table.keys := by simp [hsplit, Entries.keys]
    obtain ⟨armaments, ha⟩ := exists_collect_of_not_reachesDefect hk (h _ hk)
    rw [attached, ha] at hfails
    cases hfails

end Table

theorem verdict_of_shaped {members : Entries Json}
    (hfit : Authored.Table.IntegersFit (.object members))
    (hshape : Authored.Table.Shaped (.object members)) :
    Verdict members (compile (.object members)).outcome := by
  have hread := Authored.Table.ofJson_of_shaped hfit hshape
  have hcompiled (normalized : Table)
      (hc : (Authored.Table.meaning members).compileEach.outcome = .ok normalized) :
      normalized.keys = members.keys := by
    rw [keys_eq_of_forall₂ (Authored.Table.entries_of_compileEach hc) fun _ _ hr => hr.1,
      Authored.Table.meaning, Entries.keys_mapValues]
  refine ⟨?_, ?_, ?_⟩
  · intro before key template after derived hsplit hbefore hneeds
    obtain ⟨subtype, hsub, hfails⟩ :=
      Authored.Table.compileEach_meaning_eq_error hshape hfit hsplit hbefore hneeds
    refine ⟨subtype, hsub, ?_, rfl⟩
    rw [outcome_compile, hread]
    show (Authored.Table.meaning members).compileEach.outcome >>= _ = _
    rw [hfails]
    rfl
  · intro hall
    obtain ⟨normalized, hc⟩ := Authored.Table.exists_compileEach_meaning hshape hfit hall
    refine ⟨_, normalized, hread, hc, ?_⟩
    intro before key v after hsplit hbefore hreach
    have hkeys : normalized.keys = Entries.keys before ++ key :: Entries.keys after := by
      rw [hcompiled normalized hc, hsplit]
      simp [Entries.keys]
    have hsame := Authored.Table.reachesDefect_normalized_iff hshape hc
    have hsound : ∀ k ∈ Entries.keys before, ¬normalized.ReachesDefect k := by
      intro k hk
      obtain ⟨entry, he, rfl⟩ := List.mem_map.mp hk
      rw [hsame]
      exact hbefore entry he
    obtain ⟨failure, hreference, hfails, hmap⟩ := Table.mapM_attached_eq_error hkeys hsound
      ((hsame key).mpr hreach)
    refine ⟨failure, hreference, ?_, ?_⟩
    · rw [outcome_compile_of_ofJson hread hc, hmap]
      rfl
    · rw [(Resolver.ready_ofTable normalized).outcome key, hfails]
  · intro hall hnone
    obtain ⟨normalized, hc⟩ := Authored.Table.exists_compileEach_meaning hshape hfit hall
    have hsound : ∀ key ∈ normalized.keys, ¬normalized.ReachesDefect key := by
      intro key hk
      rw [hcompiled normalized hc] at hk
      obtain ⟨entry, he, rfl⟩ := List.mem_map.mp hk
      rw [Authored.Table.reachesDefect_normalized_iff hshape hc]
      exact hnone entry he
    obtain ⟨attached, hkeys, hmap⟩ := Table.exists_mapM_attached hsound
    refine ⟨attached.mapValues fun _ t => t.toJson, ?_, ?_⟩
    · rw [outcome_compile_of_ofJson hread hc, hmap]
      rfl
    · rw [Entries.keys_mapValues, hkeys, hcompiled normalized hc]

theorem malformed_of_not_shaped {input : Json} (hfit : Authored.Table.IntegersFit input)
    (hshape : ¬Authored.Table.Shaped input) : ∃ offence owner field,
      compile input = ⟨[], .error (.malformed offence owner field)⟩ := by
  have hjudged := Authored.judges_table hfit
  cases hread : Authored.Table.ofJson input with
  | ok authored =>
    rw [hread] at hjudged
    cases hjudged with
    | accepted _ shaped => exact absurd shaped hshape
  | error failure =>
    rw [hread] at hjudged
    cases hjudged with
    | refused offence owner field _ =>
      refine ⟨offence, owner, field, ?_⟩
      rw [compile, hread]
      rfl

/-- A value that is no table is called malformed before anything is logged; all others end as
`Verdict` says. -/
theorem compile_verdict (input : Json) (hfit : Authored.Table.IntegersFit input) :
    (¬Authored.Table.Shaped input → ∃ offence owner field,
      compile input = ⟨[], .error (.malformed offence owner field)⟩) ∧
      (Authored.Table.Shaped input → ∃ members, input = .object members ∧
        Verdict members (compile input).outcome) := by
  constructor
  · exact malformed_of_not_shaped hfit
  · intro hshape
    cases input with
    | object members => exact ⟨members, rfl, verdict_of_shaped hfit hshape⟩
    | _ => cases hshape

/-- Two shells without length after a sound ship, and a turret that leads nowhere before them. -/
def unfinishedFleet : Entries Json :=
  [("ship", .object [("turrets", .array [.object [("type", .string "ghost")]])]),
    ("short", .object [("type", .string "weapon"), ("subtype", .string "shell"),
      ("range", .int 900)]),
    ("long", .object [("type", .string "weapon"), ("subtype", .string "torpedo")])]

/-- The missing length comes before the unknown reference, and the range before the damage. -/
theorem compile_unfinishedFleet : Authored.Table.IntegersFit (.object unfinishedFleet) ∧
    Authored.Table.Shaped (.object unfinishedFleet) ∧
    Verdict unfinishedFleet (compile (.object unfinishedFleet)).outcome ∧
    (compile (.object unfinishedFleet)).outcome =
      .error (.lengthMissing "short" .range .shell) := by
  have hfit : Authored.Table.IntegersFit (.object unfinishedFleet) := by decide +kernel
  have hshape : Authored.Table.Shaped (.object unfinishedFleet) := by decide +kernel
  obtain ⟨members, heq, hverdict⟩ := (compile_verdict (.object unfinishedFleet) hfit).2 hshape
  obtain rfl : unfinishedFleet = members := Json.object.inj heq
  have hship : ∀ entry ∈ unfinishedFleet.take 1, Authored.Derivable entry.2 := by
    refine List.forall_mem_singleton.mpr ?_
    intro template derived htemplate hneeds
    obtain rfl := Json.object.inj htemplate
    have hkind : Entries.get? "type" (Authored.objectOf (unfinishedFleet[0]).2) = none := rfl
    cases hneeds with
    | range needs => cases hkind.symm.trans needs.2.weapon
    | damage needs _ => cases hkind.symm.trans needs.2.weapon
  have hshort : Authored.NeedsLength (Authored.objectOf (unfinishedFleet[1]).2) .range :=
    .range ⟨id, rfl, trivial, "shell", by decide, rfl⟩
  obtain ⟨subtype, hsub, hfails, -⟩ :=
    hverdict.length (unfinishedFleet.take 1) "short" _ _ .range rfl hship hshort
  obtain rfl : subtype = .shell := by
    have hname : ("shell" : Text) = subtype.name := Json.string.inj (Option.some.inj hsub)
    exact (Option.some.inj (WeaponSubtype.ofName?_eq_some_iff.mpr hname)).symm
  exact ⟨hfit, hshape, hverdict, hfails⟩

end EntityTable
