import EntityTable.Proofs.Artifact.Settled
import EntityTable.Proofs.Artifact.Stages
import Mathlib.Logic.Function.Iterate

/-!
Compiling an artifact as if it were authored. An artifact in which a turret carries an armament is
refused, as no author may say which one does. Any other stays as it is, round after round, but for
the angles, which each round turns into radians once more.
-/

namespace EntityTable

/-- The entries with a function applied to the values under some keys. -/
def Entries.adjust {α : Type} (keys : List Text) (f : α → α) (entries : Entries α) : Entries α :=
  entries.mapValues fun key v => if key ∈ keys then f v else v

/-! ### What an artifact shows -/

namespace Json

def angle? (mount : Entries Json) : Option Binary64 :=
  match mount.get? "angle" with
  | some (.float x) => some x
  | _ => none

/-- The angles of all turrets and armaments. -/
def angles (artifact : Json) : List Binary64 :=
  (Authored.objectOf artifact).flatMap fun entry =>
    (entry.2.mounts .turrets ++ entry.2.mounts .armaments).filterMap angle?

/-- An armament of the template says which turret carries it. -/
def Carries (template : Json) : Prop :=
  ∃ mount ∈ template.mounts .armaments, ("turret" : Text) ∈ mount.keys

def HasCarried (artifact : Json) : Prop := ∃ entry ∈ Authored.objectOf artifact, entry.2.Carries

instance : DecidablePred HasCarried := fun artifact =>
  inferInstanceAs (Decidable (∃ entry ∈ Authored.objectOf artifact,
    ∃ mount ∈ entry.2.mounts .armaments, ("turret" : Text) ∈ mount.keys))

/-- The first template with such an armament, and the position of the first one it lists. -/
def FirstCarried (artifact : Json) (key : Text) (index : Nat) : Prop :=
  ∃ (before : Entries Json) (template : Json) (after : Entries Json)
    (own : List (Entries Json)) (carried : Entries Json) (rest : List (Entries Json)),
    artifact = .object (before ++ (key, template) :: after) ∧
      (∀ entry ∈ before, ¬entry.2.Carries) ∧
      template.mounts .armaments = own ++ carried :: rest ∧
      (∀ mount ∈ own, ("turret" : Text) ∉ mount.keys) ∧ ("turret" : Text) ∈ carried.keys ∧
      own.length = index

/-! ### An artifact with all angles turned -/

def turnAngle : Json → Json
  | .float x => .float (degreesToRadians x)
  | v => v

def turnMount : Json → Json
  | .object members => .object (Entries.adjust ["angle"] turnAngle members)
  | v => v

def turnMounts : Json → Json
  | .array items => .array (items.map turnMount)
  | v => v

def turnTemplate : Json → Json
  | .object members => .object (Entries.adjust ["turrets", "armaments"] turnMounts members)
  | v => v

/-- The artifact with every angle of its turrets and armaments turned from degrees to radians. -/
def turned : Json → Json
  | .object table => .object (Entries.mapValues (fun _ template => template.turnTemplate) table)
  | v => v

end Json

namespace Entries

theorem adjust_put {α : Type} (keys : List Text) (f : α → α) (entries : Entries α) (key : Text)
    (value : α) : (entries.put key value).adjust keys f =
      (entries.adjust keys f).put key (if key ∈ keys then f value else value) := by
  induction entries with
  | nil => rfl
  | cons entry rest ih =>
    obtain ⟨k, v⟩ := entry
    by_cases hk : k = key
    · subst hk
      simp [put, adjust, mapValues]
    · simpa [put, adjust, mapValues, hk] using ih

theorem adjust_putSome {α : Type} {keys : List Text} {key : Text} (hk : key ∉ keys)
    (f : Json → Json) (toJson : α → Json) (value : Option α) (members : Entries Json) :
    adjust keys f (putSome key toJson value members) =
      putSome key toJson value (adjust keys f members) := by
  cases value with
  | none => rfl
  | some x => rw [putSome, adjust_put, if_neg hk, putSome]

theorem adjust_of_lacks {α : Type} {entries : Entries α} {known keys : List Text}
    (h : entries.Lacks known) (hk : ∀ key ∈ keys, key ∈ known) (f : α → α) :
    entries.adjust keys f = entries := by
  refine (List.map_congr_left fun entry he => ?_).trans (List.map_id _)
  have hkey : entry.1 ∉ keys := fun hm => h entry.1 (hk _ hm) (List.mem_map_of_mem he)
  simp [hkey]

end Entries

open Json

/-! ### Rendering what has been turned -/

theorem Turret.turnMount_toJson {t : Turret} (h : t.asAuthored.Sound) :
    t.toJson.turnMount = t.turned.toJson := by
  have hextra : t.extra.Lacks Authored.Turret.knownKeys := h.extra
  rw [toJson, turnMount, members, Entries.adjust_putSome (by decide), Entries.adjust_put,
    Entries.adjust_put, Entries.adjust_of_lacks hextra (by decide), if_neg (by decide),
    if_pos (by decide)]
  rfl

theorem Armament.turnMount_toJson {a : Armament} (h : a.asAuthored.Sound) :
    a.toJson.turnMount = a.turned.toJson := by
  have hextra : a.extra.Lacks Authored.Armament.knownKeys := h.extra
  rw [toJson, turnMount, members, Entries.adjust_putSome (by decide), Entries.adjust_put,
    Entries.adjust_put, Entries.adjust_of_lacks hextra (by decide), if_neg (by decide),
    if_pos (by decide)]
  rfl

theorem Template.turnTemplate_toJson {t : Template} (h : t.asAuthored.Sound) :
    t.toJson.turnTemplate = t.turned.toJson := by
  have hextra : t.extra.Lacks Authored.Template.knownKeys := h.extra
  have hturrets : t.turrets.map (fun turret => turret.toJson.turnMount) =
      t.turrets.map fun turret => turret.turned.toJson :=
    List.map_congr_left fun turret ht =>
      Turret.turnMount_toJson (h.turrets _ (List.mem_map_of_mem ht))
  have harmaments : t.armaments.map (fun armament => armament.toJson.turnMount) =
      t.armaments.map fun armament => armament.turned.toJson :=
    List.map_congr_left fun armament ha =>
      Armament.turnMount_toJson (h.armaments _ (List.mem_map_of_mem ha))
  have hattributes : t.attributeMembers.adjust ["turrets", "armaments"] turnMounts =
      t.attributeMembers := by
    rw [attributeMembers, Entries.adjust_putSome (by decide), Entries.adjust_putSome (by decide),
      Entries.adjust_putSome (by decide), Entries.adjust_putSome (by decide),
      Entries.adjust_putSome (by decide), Entries.adjust_of_lacks hextra (by decide)]
  rw [toJson, turnTemplate, members, Entries.adjust_put, Entries.adjust_put, Entries.adjust_put,
    hattributes, if_neg (by decide), if_pos (by decide), if_pos (by decide), turnMounts, turnMounts,
    List.map_map, List.map_map]
  simp only [Function.comp_def, hturrets, harmaments]
  rw [toJson, members, turned, List.map_map, List.map_map]
  rfl

theorem Table.turned_toJson {table : Table} (h : ∀ entry ∈ table, entry.2.asAuthored.Sound) :
    table.toJson.turned = table.turned.toJson := by
  rw [toJson, Json.turned, toJson, turned]
  simp only [Entries.mapValues, List.map_map]
  refine congrArg Json.object (List.map_congr_left fun entry he => ?_)
  exact Prod.ext rfl (Template.turnTemplate_toJson (h entry he))

/-- Round after round, the artifact follows the table it renders. -/
theorem Table.Settled.iterate_turned_toJson {table : Table} (h : table.Settled) (n : Nat) :
    Json.turned^[n] table.toJson = (Table.turned^[n] table).toJson := by
  induction n with
  | zero => rfl
  | succ n ih =>
    rw [Function.iterate_succ_apply', Function.iterate_succ_apply', ih]
    exact Table.turned_toJson fun entry he => ((h.iterate_turned n).templates entry he).sound

/-! ### Mounts of a rendered table -/

namespace Table

variable {table : Table}

theorem angle_mem_of_turret {entry : Text × Template} (he : entry ∈ table) {turret : Turret}
    (ht : turret ∈ entry.2.turrets) : turret.angle ∈ table.toJson.angles := by
  refine List.mem_flatMap.mpr ⟨_, List.mem_map_of_mem he, List.mem_filterMap.mpr
    ⟨turret.members, List.mem_append_left _ ?_, by rw [angle?, Turret.get?_angle_members]⟩⟩
  rw [(Template.mounts_turrets entry.2).mounts_eq]
  exact List.mem_map_of_mem ht

theorem angle_mem_of_armament {entry : Text × Template} (he : entry ∈ table)
    {armament : Armament} (ha : armament ∈ entry.2.armaments) :
    armament.angle ∈ table.toJson.angles := by
  refine List.mem_flatMap.mpr ⟨_, List.mem_map_of_mem he, List.mem_filterMap.mpr
    ⟨armament.members, List.mem_append_right _ ?_, by rw [angle?, Armament.get?_angle_members]⟩⟩
  rw [(Template.mounts_armaments entry.2).mounts_eq]
  exact List.mem_map_of_mem ha

theorem turret_mem_keys_iff {a : Armament} (h : a.asAuthored.Sound) :
    ("turret" : Text) ∈ a.members.keys ↔ a.turret ≠ none := by
  have hextra : a.extra.Lacks Authored.Armament.knownKeys := h.extra
  rw [← not_iff_not, ← Entries.get?_eq_none_iff, Armament.get?_turret_members hextra]
  simp

theorem carries_toJson {t : Template} (h : t.asAuthored.Sound) :
    t.toJson.Carries ↔ ¬∀ armament ∈ t.armaments, armament.turret = none := by
  have hkeys (armament : Armament) (ha : armament ∈ t.armaments) :=
    turret_mem_keys_iff (h.armaments _ (List.mem_map_of_mem ha))
  rw [Carries, (Template.mounts_armaments t).mounts_eq]
  push Not
  constructor
  · rintro ⟨mount, hm, hk⟩
    obtain ⟨armament, ha, rfl⟩ := List.mem_map.mp hm
    exact ⟨armament, ha, (hkeys armament ha).mp hk⟩
  · rintro ⟨armament, ha, hcarried⟩
    exact ⟨armament.members, List.mem_map_of_mem ha, (hkeys armament ha).mpr hcarried⟩

theorem hasCarried_toJson (h : ∀ entry ∈ table, entry.2.asAuthored.Sound) :
    table.toJson.HasCarried ↔
      ¬∀ entry ∈ table, ∀ armament ∈ entry.2.armaments, armament.turret = none := by
  rw [not_forall₂]
  constructor
  · rintro ⟨_, hm, hc⟩
    obtain ⟨entry, he, rfl⟩ := List.mem_map.mp hm
    exact ⟨entry, he, (carries_toJson (h entry he)).mp hc⟩
  · rintro ⟨entry, he, hc⟩
    exact ⟨_, List.mem_map_of_mem he, (carries_toJson (h entry he)).mpr hc⟩

/-- The first armament that is carried decides how a table is refused. -/
theorem compile_of_carried (h : ∀ entry ∈ table, entry.2.asAuthored.Sound)
    (hcarried : table.toJson.HasCarried) :
    ∃ key index, table.toJson.FirstCarried key index ∧
      (compile table.toJson).outcome = .error (.malformed .turretDeclared (some key)
        (some (.mountAttribute .armaments index "turret"))) := by
  obtain ⟨before, ⟨key, t⟩, after, hsplit, hbefore, ht⟩ :=
    exists_first ((hasCarried_toJson h).mp hcarried)
  obtain ⟨own, carried, rest, hlist, hown, hturret⟩ := exists_first ht
  have hsound (entry : Text × Template) (he : entry ∈ before ++ (key, t) :: after) :=
    h entry (hsplit ▸ he)
  have hkeys (armament : Armament) (ha : armament ∈ own ++ carried :: rest) :=
    turret_mem_keys_iff ((hsound (key, t) (by simp)).armaments _
      (List.mem_map_of_mem (hlist ▸ ha)))
  refine ⟨key, own.length, ⟨Entries.mapValues (fun _ t => t.toJson) before, t.toJson,
    Entries.mapValues (fun _ t => t.toJson) after, own.map Armament.members, carried.members,
    rest.map Armament.members, ?_, ?_, ?_, ?_, ?_, by simp⟩, ?_⟩
  · rw [hsplit, toJson]
    simp [Entries.mapValues]
  · intro entry he
    obtain ⟨original, ho, rfl⟩ := List.mem_map.mp he
    rw [carries_toJson (hsound original (List.mem_append_left _ ho)), not_not]
    exact hbefore original ho
  · rw [(Template.mounts_armaments t).mounts_eq, hlist, List.map_append, List.map_cons]
  · intro mount hm
    obtain ⟨armament, ha, rfl⟩ := List.mem_map.mp hm
    rw [hkeys armament (List.mem_append_left _ ha), not_not]
    exact hown armament ha
  · exact (hkeys carried (by simp)).mpr hturret
  · have hread := Authored.Table.ofJson_toJson_of_carried h hsplit hbefore hlist hown hturret
    rw [outcome_compile, hread]
    rfl

/-- Zero is zero in degrees and in radians. -/
theorem turned_of_zero (h : ∀ x ∈ table.toJson.angles, x.eq 0 = true) : table.turned = table := by
  refine (List.map_congr_left fun entry he => ?_).trans (List.map_id _)
  have hturrets : entry.2.turrets.map Turret.turned = entry.2.turrets := by
    refine (List.map_congr_left fun turret ht => ?_).trans (List.map_id _)
    rw [Turret.turned, degreesToRadians_zero (h _ (angle_mem_of_turret he ht))]
    rfl
  have harmaments : entry.2.armaments.map Armament.turned = entry.2.armaments := by
    refine (List.map_congr_left fun armament ha => ?_).trans (List.map_id _)
    rw [Armament.turned, degreesToRadians_zero (h _ (angle_mem_of_armament he ha))]
    rfl
  show (entry.1, entry.2.turned) = entry
  rw [Template.turned, hturrets, harmaments]

end Table

/-! ### From the authored table -/

/-- The table with the full armament list of every template. -/
def Table.outfitted (table : Table) : Table :=
  table.mapValues fun key t => { t with armaments := table.full key }

theorem Table.full_eq_append_of_mem {table : Table} (hn : table.keys.Nodup)
    (hcollected : ∀ entry ∈ table, ∃ armaments, table.collect [] entry.1 = .ok armaments)
    {entry : Text × Template} (he : entry ∈ table) : table.full entry.1 =
      entry.2.armaments ++ Turret.allCarry table.full entry.2.turrets 0 := by
  obtain ⟨armaments, hc⟩ := hcollected entry he
  exact full_eq_append hc (Entries.get?_of_mem hn he)

/-- A table all of whose angles are finite in the end is made of settled templates. -/
theorem Stages.settled {members : Entries Json} {normalized : Table}
    (h : Stages members normalized) (hn : normalized.keys.Nodup)
    (hfinite : ∀ x ∈ normalized.outfitted.toJson.angles, x.isFinite = true) :
    ∀ entry ∈ normalized, entry.2.Settled entry.1 := by
  intro entry he
  obtain ⟨source, hs, hkey, hc⟩ := h.exists_source he
  have houtfitted : (entry.1, { entry.2 with armaments := normalized.full entry.1 }) ∈
      normalized.outfitted := List.mem_map_of_mem he
  have hfull := Table.full_eq_append_of_mem hn h.collected he
  refine Authored.Template.settled_of_compile (Authored.Table.sound_of_ofJson h.read source hs)
    (hkey ▸ hc) ?_ ?_
  · intro turret ht
    exact hfinite _ (Table.angle_mem_of_turret houtfitted ht)
  · intro armament ha
    refine hfinite _ (Table.angle_mem_of_armament houtfitted ?_)
    show armament ∈ normalized.full entry.1
    exact hfull ▸ List.mem_append_left _ ha

namespace Table

variable {table : Table} (hn : table.keys.Nodup)
  (hcollected : ∀ entry ∈ table, ∃ armaments, table.collect [] entry.1 = .ok armaments)
  (hsettled : ∀ entry ∈ table, entry.2.Settled entry.1)
include hcollected hsettled

/-- Inherited armaments are as sound as those they are copies of. -/
theorem outfitted_sound : ∀ entry ∈ table.outfitted, entry.2.asAuthored.Sound := by
  intro entry he
  obtain ⟨original, ho, rfl⟩ := List.mem_map.mp he
  have hs := (hsettled original ho).sound
  refine ⟨hs.length, hs.range, hs.damage, hs.turrets, ?_, hs.sensors, hs.extra⟩
  intro armament ha
  obtain ⟨mounted, hm, rfl⟩ := List.mem_map.mp ha
  obtain ⟨armaments, hc⟩ := hcollected original ho
  obtain ⟨source, behind, hb, own, hown, hcopy⟩ := mem_full hc hm
  have hsound := (hsettled _ (Entries.mem_of_get? hb)).sound.armaments _ (List.mem_map_of_mem hown)
  rcases hcopy with rfl | ⟨i, rfl⟩
  · exact hsound
  · exact hsound

include hn

/-- Where nothing is carried, the templates have all their armaments from the start. -/
theorem settled_of_uncarried
    (hown : ∀ entry ∈ table.outfitted, ∀ armament ∈ entry.2.armaments, armament.turret = none) :
    table.outfitted = table ∧ table.Settled := by
  have hfull : ∀ entry ∈ table, table.full entry.1 = entry.2.armaments := by
    intro entry he
    have hsplit := full_eq_append_of_mem hn hcollected he
    cases hcarried : Turret.allCarry table.full entry.2.turrets 0 with
    | nil => rw [hsplit, hcarried, List.append_nil]
    | cons carried rest =>
      have hm : carried ∈ Turret.allCarry table.full entry.2.turrets 0 := by simp [hcarried]
      obtain ⟨position, turret, -, hc⟩ := Turret.mem_allCarry hm
      have hlisted : carried ∈ table.full entry.1 := hsplit ▸ List.mem_append_right _ hm
      have hnone := hown _ (List.mem_map_of_mem he) carried hlisted
      rw [Turret.turret_of_mem_carries hc] at hnone
      cases hnone
  constructor
  · refine (List.map_congr_left fun entry he => ?_).trans (List.map_id _)
    show (entry.1, { entry.2 with armaments := table.full entry.1 }) = entry
    rw [hfull entry he]
  · refine ⟨hsettled, fun entry he => ?_⟩
    obtain ⟨armaments, hc⟩ := hcollected entry he
    rw [hc, ← full_of_collect hc, hfull entry he]

end Table

/-- What compiling an artifact gives, and compiling it again and again. -/
structure Recompiled (artifact : Json) : Prop where
  accepted : (∃ again, (compile artifact).outcome = .ok again) ↔ ¬artifact.HasCarried
  /-- The first carried armament of the first template that lists one is reported. -/
  refused : artifact.HasCarried → ∃ key index, artifact.FirstCarried key index ∧
    ∃ failure : Failure, (compile artifact).outcome = .error failure ∧
      (∃ offence owner field, failure = .malformed offence owner field) ∧
      failure.diagnostic? = some ⟨Offence.turretDeclared.text, some key,
        some (Text.concat ["armaments", "[", Text.ofNat index, "].", "turret"])⟩
  /-- Each round turns the angles and does nothing else. -/
  rounds : ¬artifact.HasCarried → ∀ n,
    (compile (Json.turned^[n] artifact)).outcome = .ok (Json.turned^[n + 1] artifact)
  fixed : ¬artifact.HasCarried → (∀ x ∈ artifact.angles, x.eq 0 = true) →
    (compile artifact).outcome = .ok artifact

theorem Table.Settled.recompiled {table : Table} (h : table.Settled) : Recompiled table.toJson := by
  have hnone : ¬table.toJson.HasCarried := by
    rw [hasCarried_toJson fun entry he => (h.templates entry he).sound, not_not]
    exact fun entry he => (h.templates entry he).uncarried
  refine ⟨⟨fun _ => hnone, fun _ => ⟨_, h.compile⟩⟩, fun hc => absurd hc hnone, fun _ n => ?_,
    fun _ hzero => ?_⟩
  · rw [h.iterate_turned_toJson, h.iterate_turned_toJson, Function.iterate_succ_apply']
    exact (h.iterate_turned n).compile
  · rw [h.compile, Table.turned_of_zero hzero]

/-- An artifact whose angles are finite is refused for the armaments that its turrets carry, or
compiles to itself but for the angles, however often. -/
theorem compile_artifact (input output : Json) (hd : input.KeysDistinct)
    (h : (compile input).outcome = .ok output) (hfinite : ∀ x ∈ output.angles, x.isFinite = true) :
    Recompiled output := by
  obtain ⟨members, normalized, rfl, hs, rfl⟩ := compile_eq_ok_iff.mp h
  have hn : normalized.keys.Nodup := hs.keys_eq ▸ hd.keys_nodup
  have hrendered : Json.object normalized.rendered = normalized.outfitted.toJson :=
    (Table.toJson_attached normalized).symm
  rw [hrendered] at hfinite ⊢
  have hsettled := hs.settled hn hfinite
  have hsound := Table.outfitted_sound hs.collected hsettled
  by_cases hc : normalized.outfitted.toJson.HasCarried
  · obtain ⟨key, index, hfirst, hfails⟩ := Table.compile_of_carried hsound hc
    refine ⟨⟨?_, fun hnone => absurd hc hnone⟩,
      fun _ => ⟨key, index, hfirst, _, hfails, ⟨_, _, _, rfl⟩, rfl⟩, fun hnone => absurd hc hnone,
      fun hnone => absurd hc hnone⟩
    rintro ⟨again, hagain⟩
    cases hfails.symm.trans hagain
  · rw [Table.hasCarried_toJson hsound, not_not] at hc
    obtain ⟨hsame, hsettled⟩ := Table.settled_of_uncarried hn hs.collected hsettled hc
    rw [hsame]
    exact hsettled.recompiled

/-- A ship with an anchor on either side and a turret that names an unarmed raft. -/
def moored : Json :=
  .object [("ship", .object [("armaments",
      .array [.object [("angle", .int 90), ("symmetrical", .bool true)]]),
      ("turrets", .array [.object [("angle", .int 45), ("type", .string "raft")]])]),
    ("raft", .object [("type", .string "weapon"), ("subtype", .string "torpedo"),
      ("length", .int 5)])]

/-- The raft has nothing for the turret to carry, so the artifact compiles again. -/
theorem compile_moored : moored.KeysDistinct ∧ ∃ output, (compile moored).outcome = .ok output ∧
    (∀ x ∈ output.angles, x.isFinite = true) ∧ output.angles.length = 3 ∧
      (compile output).outcome = .ok output.turned ∧
      (compile output.turned).outcome = .ok output.turned.turned := by
  have hd : moored.KeysDistinct := by
    simp only [moored, Json.KeysDistinct, Json.MembersDistinct, Json.ItemsDistinct,
      Entries.keys, and_true]
    decide
  have hchecked : ∃ output, (compile moored).outcome.toOption = some output ∧
      (∀ x ∈ output.angles, x.isFinite = true) ∧ output.angles.length = 3 ∧
        ¬output.HasCarried := by
    have hany : (compile moored).outcome.toOption.any (fun output =>
        decide (∀ x ∈ output.angles, x.isFinite = true) && decide (output.angles.length = 3) &&
          decide (¬output.HasCarried)) = true := by decide +kernel
    simpa [Option.any_eq_true, and_assoc] using hany
  obtain ⟨output, hsome, hfinite, hlength, hnone⟩ := hchecked
  have hc : (compile moored).outcome = .ok output := by
    cases hc : (compile moored).outcome with
    | error e => rw [hc] at hsome; cases hsome
    | ok found => rw [hc] at hsome; rw [Option.some.inj hsome]
  have hrounds := (compile_artifact moored output hd hc hfinite).rounds hnone
  exact ⟨hd, output, hc, hfinite, hlength, hrounds 0, hrounds 1⟩

end EntityTable
