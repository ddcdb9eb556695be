import EntityTable.Proofs.Artifact.Attributes
import EntityTable.Proofs.Inheritance.Log

/-!
The log of a compilation that succeeds. It can be read off the artifact: what is told of a template
on its own follows the order of the table, and what is told of its armaments an order in which the
templates that turrets name come first.
-/

namespace EntityTable

open Authored (objectOf stringOf)

/-! ### What an artifact has to tell -/

/-- A weapon without damage is a gap in the data. -/
def gap (key : Text) (template : Entries Json) : List LogEvent :=
  if stringOf (template.get? "type") = some ("weapon" : Text) ∧
      ¬template.contains "damage" then
    [.noDamage key (stringOf (template.get? "subtype"))]
  else []

def gaps (table : Entries Json) : List LogEvent :=
  table.flatMap fun entry => gap entry.1 (objectOf entry.2)

/-- How many armaments a template has, and how many of them are inherited. -/
def tally (table : Entries Json) (key : Text) : LogEvent :=
  let armaments := armamentsBehind table (some key)
  .resolved key armaments.length (armaments.countP (Entries.contains "turret"))

/-- All that is told of an artifact whose armaments are resolved in the given order. -/
def account (table : Entries Json) (order : List Text) : List LogEvent :=
  (table.flatMap fun entry => .normalizing entry.1 :: gap entry.1 (objectOf entry.2)) ++
    order.map (tally table) ++ [.compiled table.length]

/-! ### The same in words -/

def gapLines (key : Text) (template : Entries Json) : List Text :=
  if stringOf (template.get? "type") = some ("weapon" : Text) ∧
      ¬template.contains "damage" then
    [Text.concat ["WARNING entity_compiler.attributes: Weapon '", key, "' (subtype ",
      (stringOf (template.get? "subtype")).getD "None",
      ") has no authored damage and no damage curve"]]
  else []

def tallyLine (table : Entries Json) (key : Text) : Text :=
  let armaments := armamentsBehind table (some key)
  Text.concat ["DEBUG entity_compiler.turrets: Resolved ", Text.ofNat armaments.length,
    " armaments for '", key, "' (", Text.ofNat (armaments.countP (Entries.contains "turret")),
    " inherited)"]

/-- The lines of an account. -/
def accountLines (table : Entries Json) (order : List Text) : List Text :=
  (table.flatMap fun entry =>
      Text.concat ["DEBUG entity_compiler.compiler: Normalizing '", entry.1, "'"] ::
        gapLines entry.1 (objectOf entry.2)) ++
    order.map (tallyLine table) ++
    [Text.concat ["INFO entity_compiler.compiler: Compiled ", Text.ofNat table.length,
      " entity templates"]]

/-- Every key of an artifact once, and behind the keys that its turrets name. -/
structure BehindReferences (table : Entries Json) (order : List Text) : Prop where
  nodup : order.Nodup
  perm : order.Perm table.keys
  behind : ∀ before key after, order = before ++ key :: after →
    ∀ template, (key, template) ∈ table → ∀ turret ∈ template.mounts .turrets,
      ∀ target, turret.get? "type" = some (.string target) → target ∈ before

namespace LogEvent

theorem lines_debug (log : List LogEvent) : lines .debug log = log.map line := by
  have hall : log.filter (isAtLeast .debug) = log :=
    List.filter_eq_self.mpr fun event _ => decide_eq_true (Nat.zero_le _)
  rw [lines, hall]

/-- The level and the source of an event come right before the first words of its message. -/
theorem line_eq {event : LogEvent} {first opening : Text} {words : List Text}
    (hmessage : event.message = Text.concat (first :: words))
    (hopening : Text.concat [event.level.name, " ", event.source, ": ", first] = opening) :
    event.line = Text.concat (opening :: words) := by
  rw [line, hmessage, ← hopening]
  simp [Text.concat]

theorem line_normalizing (key : Text) : (normalizing key).line =
    Text.concat ["DEBUG entity_compiler.compiler: Normalizing '", key, "'"] := by
  refine line_eq rfl ?_
  show Text.concat ["DEBUG", " ", "entity_compiler.compiler", ": ", "Normalizing '"] = _
  decide +kernel

theorem line_noDamage (key : Text) (subtype : Option Text) : (noDamage key subtype).line =
    Text.concat ["WARNING entity_compiler.attributes: Weapon '", key, "' (subtype ",
      subtype.getD "None", ") has no authored damage and no damage curve"] := by
  refine line_eq rfl ?_
  show Text.concat ["WARNING", " ", "entity_compiler.attributes", ": ", "Weapon '"] = _
  decide +kernel

theorem line_resolved (key : Text) (count inherited : Nat) :
    (resolved key count inherited).line =
      Text.concat ["DEBUG entity_compiler.turrets: Resolved ", Text.ofNat count,
        " armaments for '", key, "' (", Text.ofNat inherited, " inherited)"] := by
  refine line_eq rfl ?_
  show Text.concat ["DEBUG", " ", "entity_compiler.turrets", ": ", "Resolved "] = _
  decide +kernel

theorem line_compiled (count : Nat) : (compiled count).line =
    Text.concat ["INFO entity_compiler.compiler: Compiled ", Text.ofNat count,
      " entity templates"] := by
  refine line_eq rfl ?_
  show Text.concat ["INFO", " ", "entity_compiler.compiler", ": ", "Compiled "] = _
  decide +kernel

end LogEvent

theorem map_line_gap (key : Text) (template : Entries Json) :
    (gap key template).map LogEvent.line = gapLines key template := by
  unfold gap gapLines
  split
  · rw [List.map_singleton, LogEvent.line_noDamage]
  · rfl

theorem map_line_gaps (table : Entries Json) : (gaps table).map LogEvent.line =
    table.flatMap fun entry => gapLines entry.1 (objectOf entry.2) := by
  rw [gaps, List.map_flatMap]
  exact List.flatMap_congr fun entry _ => map_line_gap entry.1 _

theorem map_line_account (table : Entries Json) (order : List Text) :
    (account table order).map LogEvent.line = accountLines table order := by
  have htemplates : (table.flatMap fun entry =>
      LogEvent.normalizing entry.1 :: gap entry.1 (objectOf entry.2)).map LogEvent.line =
        table.flatMap fun entry =>
          Text.concat ["DEBUG entity_compiler.compiler: Normalizing '", entry.1, "'"] ::
            gapLines entry.1 (objectOf entry.2) := by
    rw [List.map_flatMap]
    refine List.flatMap_congr fun entry _ => ?_
    rw [List.map_cons, LogEvent.line_normalizing, map_line_gap]
  have htallies : (order.map (tally table)).map LogEvent.line = order.map (tallyLine table) := by
    rw [List.map_map]
    exact List.map_congr_left fun key _ => LogEvent.line_resolved ..
  rw [account, accountLines, List.map_append, List.map_append, htemplates, htallies,
    List.map_singleton, LogEvent.line_compiled]

theorem filter_gap (key : Text) (template : Entries Json) :
    (gap key template).filter (LogEvent.isAtLeast .warning) = gap key template := by
  unfold gap
  split <;> rfl

/-- Of all that is told only the gaps are warnings. -/
theorem lines_warning_account (table : Entries Json) (order : List Text) :
    LogEvent.lines .warning (account table order) = (gaps table).map LogEvent.line := by
  have htemplates : (table.flatMap fun entry =>
      LogEvent.normalizing entry.1 :: gap entry.1 (objectOf entry.2)).filter
        (LogEvent.isAtLeast .warning) = gaps table := by
    rw [List.filter_flatMap]
    exact List.flatMap_congr fun entry _ => filter_gap entry.1 _
  have htallies : (order.map (tally table)).filter (LogEvent.isAtLeast .warning) = [] := by
    rw [List.filter_map]
    exact congrArg _ (List.filter_eq_nil_iff.mpr fun key _ => Bool.false_ne_true)
  have hlast : [LogEvent.compiled table.length].filter (LogEvent.isAtLeast .warning) = [] := rfl
  rw [LogEvent.lines, account, List.filter_append, List.filter_append, htemplates, htallies, hlast,
    List.append_nil, List.append_nil]

/-! ### Templates on their own -/

/-- The gap that a compiled template has. -/
def Template.gap (owner : Text) (t : Template) : List LogEvent :=
  if t.isWeapon ∧ t.damage = none then [.noDamage owner t.subtype] else []

theorem Template.gap_members {t : Template} (h : t.extra.Lacks Authored.Template.knownKeys)
    (owner : Text) : EntityTable.gap owner t.members = t.gap owner := by
  have hfield {key : Text} {value : Option Json} (hf : (key, value) ∈ templateFields t.kind
      t.subtype t.length t.range t.damage (t.turrets.map Turret.members)
      (t.armaments.map Armament.members) (t.sensors.map Sensor.members)) :
      t.members.get? key = value := by
    have hdistinct : Authored.Template.knownKeys.Nodup := by decide
    rw [members_eq_append h, ← Entries.without_of_lacks h]
    exact get?_without_append hdistinct rfl hf t.extra
  have hkind : t.members.get? "type" = t.kind.map .string := hfield (by simp [templateFields])
  have hsubtype : t.members.get? "subtype" = t.subtype.map .string :=
    hfield (by simp [templateFields])
  have hauthored : t.members.get? "damage" = t.damage.map .float :=
    hfield (by simp [templateFields])
  have hdamage : t.members.contains "damage" ↔ t.damage ≠ none := by
    rw [Entries.contains, hauthored]
    cases t.damage <;> simp
  have hweapon : t.isWeapon ↔ t.kind = some ("weapon" : Text) := decide_eq_true_iff
  simp only [EntityTable.gap, gap, hkind, hsubtype, Authored.stringOf_map, hdamage, not_not,
    hweapon]

namespace Authored

variable {owner : Text} {t : Template}

/-- A weapon that stays without damage is told of, and nothing else is. -/
theorem Template.log_deriveDamage {damage : Option Binary64}
    (h : (t.deriveDamage owner).outcome = .ok damage) : (t.deriveDamage owner).log =
      if t.isWeapon ∧ damage = none then [.noDamage owner t.subtype] else [] := by
  unfold deriveDamage at h ⊢
  by_cases hauthored : t.damage = none
  · by_cases hweapon : t.isWeapon
    · cases hsubtype : t.weaponSubtype? with
      | none =>
        simp only [hauthored, hweapon, hsubtype] at h ⊢
        obtain rfl := Except.ok.inj h
        simp
      | some subtype =>
        cases hrule : subtype.damageRule <;>
          simp only [hauthored, hweapon, hsubtype, hrule] at h ⊢
        case curve curve =>
          obtain ⟨length, -, rfl⟩ := map_eq_ok_iff.mp h
          simp
        case constant x =>
          obtain rfl := Except.ok.inj h
          simp
        case unset =>
          obtain rfl := Except.ok.inj h
          simp
    · simp [hauthored, hweapon]
  · obtain rfl : t.damage = damage := by
      simpa [hauthored, Option.isSome_iff_ne_none] using h
    simp [hauthored, Option.isSome_iff_ne_none]

theorem Template.log_compile {compiled : EntityTable.Template}
    (h : (t.compile owner).outcome = .ok compiled) :
    (t.compile owner).log = compiled.gap owner := by
  rw [outcome_compile] at h
  obtain ⟨range, hrange, h⟩ := bind_eq_ok_iff.mp h
  obtain ⟨damage, hdamage, rfl⟩ := map_eq_ok_iff.mp h
  have hlifted : (Logged.ofExcept (t.deriveRange owner)).outcome = .ok range := hrange
  show (Logged.ofExcept (t.deriveRange owner) >>= _).log = _
  rw [Logged.log_bind hlifted, Logged.log_bind hdamage, log_deriveDamage hdamage]
  exact List.append_nil _

/-- The templates are told of in their order, each with its gap behind it. -/
theorem Table.log_compileEach {authored : Table} {normalized : EntityTable.Table}
    (h : authored.compileEach.outcome = .ok normalized) : authored.compileEach.log =
      normalized.flatMap fun entry => .normalizing entry.1 :: entry.2.gap entry.1 := by
  have hentries := entries_of_compileEach h
  rw [compileEach, Logged.log_mapM h]
  clear h
  induction hentries with
  | nil => rfl
  | @cons source entry _ _ hfirst _ ih =>
    obtain ⟨hkey, hcompiled⟩ := hfirst
    rw [List.flatMap_cons, List.flatMap_cons, ih, hkey, ← Template.log_compile hcompiled]
    congr 1
    show LogEvent.normalizing source.1 :: ((source.2.compile source.1 >>= _).log) = _
    rw [Logged.log_bind hcompiled]
    exact congrArg _ (List.append_nil _)

end Authored

/-! ### Armaments -/

namespace Table

variable {table : Table} {key : Text}

/-- The inherited armaments are those with an index. -/
theorem countP_rendered {template : Template} (h : table.Resolvable)
    (ht : table.get? key = some template) :
    ((table.full key).map Armament.members).countP (Entries.contains "turret") =
      (table.full key).length - template.armaments.length := by
  have hfull := h.full_eq ht
  have hindexed {a : Armament} (ha : a ∈ table.full key) :
      Entries.contains "turret" a.members = a.turret.isSome := by
    rw [Entries.contains, Armament.get?_turret_members (h.lacks_of_mem_full ht ha),
      Option.isSome_map]
  have hown : template.armaments.countP (fun a => a.turret.isSome) = 0 := by
    rw [List.countP_eq_zero]
    intro a ha
    simp [(h.normalized _ _ (Entries.mem_of_get? ht)).uncarried a ha]
  have hinherited : (Turret.allCarry table.full template.turrets 0).countP
      (fun a => a.turret.isSome) = (Turret.allCarry table.full template.turrets 0).length := by
    rw [List.countP_eq_length]
    intro a ha
    obtain ⟨position, turret, -, hcarried⟩ := Turret.mem_allCarry ha
    rw [Turret.turret_of_mem_carries hcarried, Option.isSome_some]
  rw [List.countP_map, List.countP_congr fun a ha => by
    rw [Function.comp_apply, hindexed ha], hfull, List.countP_append, hown, hinherited]
  simp

theorem tally_rendered (h : table.Resolvable) (hk : key ∈ table.keys) :
    tally table.rendered key = table.finishing (key, table.full key) := by
  obtain ⟨template, ht⟩ := Entries.exists_get?_of_mem_keys hk
  have hown : table.ownCount key = template.armaments.length := by rw [ownCount, ht]; rfl
  rw [tally, armamentsBehind_rendered hk, countP_rendered h ht, List.length_map, finishing, hown]

theorem Behind.rendered {order : List Text} (h : table.Behind order) (hr : table.Resolvable)
    (hn : table.keys.Nodup) : BehindReferences table.rendered order := by
  have hkeys : table.rendered.keys = table.keys := Entries.keys_mapValues _ table
  refine ⟨h.perm.nodup_iff.mpr hn, hkeys ▸ h.perm, ?_⟩
  intro before key after hsplit template ht turret hm target htype
  obtain ⟨⟨key', t⟩, he, heq⟩ := List.mem_map.mp ht
  obtain ⟨rfl, rfl⟩ := Prod.mk.inj heq
  rw [(Template.mounts_turrets _).mounts_eq] at hm
  obtain ⟨mounted, hmounted, rfl⟩ := List.mem_map.mp hm
  rw [Turret.get?_type_members ((hr.normalized _ _ he).turrets mounted hmounted)] at htype
  have hreference : mounted.reference = some target := by
    obtain ⟨name, hname, heq⟩ := Option.map_eq_some_iff.mp htype
    rw [hname, Json.string.inj heq]
  exact h.behind before key' after hsplit target
    ((references_iff_of_get? (Entries.get?_of_mem hn he)).mpr ⟨mounted, hmounted, hreference⟩)

end Table

/-! ### The whole log -/

namespace Stages

variable {members : Entries Json} {normalized : Table}

theorem lacks_of_mem (hs : Stages members normalized) {entry : Text × Template}
    (he : entry ∈ normalized) : entry.2.extra.Lacks Authored.Template.knownKeys := by
  obtain ⟨source, hm, -, hc⟩ := hs.exists_source he
  obtain ⟨member, -, rfl⟩ := List.mem_map.mp hm
  rw [Authored.Template.outcome_compile] at hc
  obtain ⟨range, -, hc⟩ := bind_eq_ok_iff.mp hc
  obtain ⟨damage, -, hc⟩ := map_eq_ok_iff.mp hc
  rw [← hc]
  exact Entries.lacks_without _ _

theorem gap_rendered (hs : Stages members normalized) :
    (normalized.rendered.flatMap fun entry =>
        .normalizing entry.1 :: gap entry.1 (objectOf entry.2)) =
      normalized.flatMap fun entry => .normalizing entry.1 :: entry.2.gap entry.1 := by
  rw [Table.rendered, Entries.mapValues, List.flatMap_map]
  refine List.flatMap_congr fun entry he => congrArg _ ?_
  have hlacks := hs.lacks_of_mem he
  exact Template.gap_members
    (t := { entry.2 with armaments := normalized.full entry.1 }) hlacks entry.1

/-- Each stage writes behind the one before. -/
theorem log_compile (hs : Stages members normalized) : (compile (.object members)).log =
    (Authored.Table.meaning members).compileEach.log ++ normalized.attachInherited.log ++
      [.compiled normalized.length] := by
  have hread : (Logged.ofExcept (Authored.Table.ofJson (.object members))).outcome =
      .ok (Authored.Table.meaning members) := hs.read
  have hlength : (normalized.mapValues fun key template =>
      { template with armaments := normalized.full key }).length = normalized.length :=
    List.length_map ..
  have hattached := Table.outcome_attachInherited hs.collected
  show (Logged.ofExcept (Authored.Table.ofJson (.object members)) >>= _).log = _
  rw [Logged.log_bind hread, bind_pure_comp, Logged.log_map, Authored.Table.compile,
    Logged.log_bind hs.compiled, Logged.log_bind hattached, bind_pure_comp, Logged.log_map,
    Logged.log_write, hlength, Logged.log_ofExcept, List.nil_append, List.append_assoc]

end Stages

/-- The log of a compilation is an account of its artifact, in words too, and its warnings are the
gaps in it. -/
theorem compile_log_truthful (input output : Json) (hd : input.KeysDistinct)
    (h : (compile input).outcome = .ok output) :
    ∃ (members table : Entries Json) (order : List Text), input = .object members ∧
      output = .object table ∧ table.keys = members.keys ∧ BehindReferences table order ∧
      (compile input).log = account table order ∧
      LogEvent.lines .debug (compile input).log = accountLines table order ∧
      LogEvent.lines .warning (compile input).log =
        table.flatMap fun entry => gapLines entry.1 (objectOf entry.2) := by
  obtain ⟨members, normalized, rfl, hs, rfl⟩ := compile_eq_ok_iff.mp h
  have hn : normalized.keys.Nodup := hs.keys_eq ▸ hd.keys_nodup
  obtain ⟨order, hbehind, htallies⟩ :=
    Table.log_attachInherited hn (Table.outcome_attachInherited hs.collected)
  have hwhole : (compile (.object members)).log = account normalized.rendered order := by
    have htally : order.map (tally normalized.rendered) =
        order.map fun key => normalized.finishing (key, normalized.full key) :=
      List.map_congr_left fun key hk =>
        Table.tally_rendered hs.resolvable (hbehind.perm.mem_iff.mp hk)
    have hlength : normalized.rendered.length = normalized.length := List.length_map ..
    rw [hs.log_compile, Authored.Table.log_compileEach hs.compiled, htallies, account,
      hs.gap_rendered, htally, hlength]
  refine ⟨members, normalized.rendered, order, rfl, rfl,
    (Entries.keys_mapValues _ normalized).trans hs.keys_eq,
    hbehind.rendered hs.resolvable hn, hwhole, ?_, ?_⟩
  · rw [LogEvent.lines_debug, hwhole, map_line_account]
  · rw [hwhole, lines_warning_account, map_line_gaps]

/-- Two ships with the same guns, which fire a beam that nobody has given a damage. -/
def squadron : Json :=
  .object [("flagship", .object [("turrets", .array [.object [("type", .string "gun"),
      ("symmetrical", .bool true)]])]),
    ("beam", .object [("type", .string "weapon"), ("subtype", .string "laser")]),
    ("escort", .object [("turrets", .array [.object [("type", .string "gun")]])]),
    ("gun", .object [("turrets", .array [.object [("type", .string "beam")]]),
      ("armaments", .array [.object [("type", .string "beam")]])])]

theorem compile_squadron : squadron.KeysDistinct ∧
    ∃ output, (compile squadron).outcome = .ok output ∧
      ∃ (table : Entries Json) (order : List Text), output = .object table ∧
        BehindReferences table order ∧ (compile squadron).log = account table order ∧
        LogEvent.lines .debug (compile squadron).log = accountLines table order ∧
        LogEvent.lines .warning (compile squadron).log =
          table.flatMap fun entry => gapLines entry.1 (objectOf entry.2) := by
  have hd : squadron.KeysDistinct := by
    simp only [squadron, Json.KeysDistinct, Json.MembersDistinct, Json.ItemsDistinct,
      Entries.keys, and_true]
    decide
  obtain ⟨output, h⟩ : ∃ output, (compile squadron).outcome = .ok output :=
    exists_eq_ok_of_isSome (by decide +kernel)
  obtain ⟨members, table, order, -, rfl, -, hbehind, hlog, hdebug, hwarning⟩ :=
    compile_log_truthful squadron output hd h
  exact ⟨hd, _, h, table, order, rfl, hbehind, hlog, hdebug, hwarning⟩

example : LogEvent.lines .warning (compile squadron).log =
    [Text.concat ["WARNING entity_compiler.attributes: Weapon 'beam' (subtype laser) ",
      "has no authored damage and no damage curve"]] := by
  decide +kernel

end EntityTable
