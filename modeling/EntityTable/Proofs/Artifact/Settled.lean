import EntityTable.Proofs.Artifact.Rereading
import EntityTable.Proofs.Attributes
import EntityTable.Proofs.Binary64.Angle
import EntityTable.Proofs.Compilation
import EntityTable.Proofs.Curve
import EntityTable.Proofs.Inheritance.Related

/-!
Tables that a compilation leaves as they are but for the angles of their mounts, which it takes for
degrees and turns into radians once more. What such a compilation gives is a table of this kind
again.
-/

namespace EntityTable

def Turret.turned (t : Turret) : Turret := { t with angle := degreesToRadians t.angle }

def Armament.turned (a : Armament) : Armament := { a with angle := degreesToRadians a.angle }

def Template.turned (t : Template) : Template :=
  { t with turrets := t.turrets.map Turret.turned, armaments := t.armaments.map Armament.turned }

def Table.turned (table : Table) : Table := table.mapValues fun _ t => t.turned

/-- All there is to derive for the template has been derived, and its angles can be turned without
end. -/
structure Template.Settled (owner : Text) (t : Template) : Prop where
  sound : t.asAuthored.Sound
  turrets : ∀ turret ∈ t.turrets, turret.angle.Within turnedRank
  armaments : ∀ armament ∈ t.armaments, armament.angle.Within turnedRank
  uncarried : ∀ armament ∈ t.armaments, armament.turret = none
  range : t.asAuthored.deriveRange owner = .ok t.range
  damage : (t.asAuthored.deriveDamage owner).outcome = .ok t.damage
  sensors : ∀ sensor ∈ t.sensors, sensor.asAuthored.limit = sensor

namespace Template.Settled

variable {owner : Text} {t : Template}

theorem compile (h : t.Settled owner) :
    (t.asAuthored.compile owner).outcome = .ok t.turned := by
  have hturrets : t.asAuthored.turrets.flatMap Authored.Turret.expand = t.turned.turrets := by
    rw [asAuthored, List.flatMap_map]
    exact List.map_eq_flatMap.symm
  have harmaments : t.asAuthored.armaments.flatMap Authored.Armament.expand =
      t.turned.armaments := by
    have hexpand : ∀ armament ∈ t.armaments, armament.asAuthored.expand = [armament.turned] := by
      intro armament ha
      rw [Armament.turned, h.uncarried armament ha]
      rfl
    rw [asAuthored, List.flatMap_map, List.flatMap_congr hexpand]
    exact List.map_eq_flatMap.symm
  have hsensors : t.asAuthored.sensors.map Authored.Sensor.limit = t.sensors := by
    rw [asAuthored, List.map_map]
    exact (List.map_congr_left h.sensors).trans (List.map_id _)
  rw [Authored.Template.outcome_compile, h.range, hturrets, harmaments, hsensors]
  show (t.asAuthored.deriveDamage owner).outcome.map _ = _
  rw [h.damage]
  rfl

theorem turned (h : t.Settled owner) : t.turned.Settled owner := by
  have hfinite {x : Binary64} (hx : x.Within turnedRank) : (degreesToRadians x).isFinite = true :=
    (degreesToRadians_within hx).isFinite turnedRank_lt
  refine ⟨⟨h.sound.length, h.sound.range, h.sound.damage, ?_, ?_, h.sound.sensors, h.sound.extra⟩,
    ?_, ?_, ?_, h.range, h.damage, h.sensors⟩
  · intro turret ht
    obtain ⟨_, hm, rfl⟩ := List.mem_map.mp ht
    obtain ⟨original, ho, rfl⟩ := List.mem_map.mp hm
    have hs := h.sound.turrets _ (List.mem_map_of_mem ho)
    exact ⟨hfinite (h.turrets original ho), hs.side, hs.extra⟩
  · intro armament ha
    obtain ⟨_, hm, rfl⟩ := List.mem_map.mp ha
    obtain ⟨original, ho, rfl⟩ := List.mem_map.mp hm
    have hs := h.sound.armaments _ (List.mem_map_of_mem ho)
    exact ⟨hfinite (h.armaments original ho), hs.side, hs.extra⟩
  · intro turret ht
    obtain ⟨original, ho, rfl⟩ := List.mem_map.mp ht
    exact degreesToRadians_within (h.turrets original ho)
  · intro armament ha
    obtain ⟨original, ho, rfl⟩ := List.mem_map.mp ha
    exact degreesToRadians_within (h.armaments original ho)
  · intro armament ha
    obtain ⟨original, ho, rfl⟩ := List.mem_map.mp ha
    exact h.uncarried original ho

end Template.Settled

/-! ### Templates that have been compiled -/

namespace Authored

/-- A mount stands where it was authored, or on the opposite side. -/
def IsCopy (angle side mountedAngle mountedSide : Binary64) : Prop :=
  (mountedAngle = degreesToRadians angle ∧ mountedSide = side) ∨
    (mountedAngle = (degreesToRadians angle).opposite ∧ mountedSide = side.opposite)

theorem Turret.isCopy_of_mem_expand {t : Turret} {mounted : EntityTable.Turret}
    (h : mounted ∈ t.expand) : IsCopy t.angle t.side mounted.angle mounted.side := by
  rcases mem_expand_iff.mp h with rfl | ⟨-, rfl⟩
  · exact .inl ⟨rfl, rfl⟩
  · exact .inr ⟨rfl, rfl⟩

theorem Armament.isCopy_of_mem_expand {a : Armament} {mounted : EntityTable.Armament}
    (h : mounted ∈ a.expand) : IsCopy a.angle a.side mounted.angle mounted.side := by
  rcases mem_expand_iff.mp h with rfl | ⟨-, rfl⟩
  · exact .inl ⟨rfl, rfl⟩
  · exact .inr ⟨rfl, rfl⟩

section Copies

variable {angle side mountedAngle mountedSide : Binary64}

theorem IsCopy.side_isFinite (h : IsCopy angle side mountedAngle mountedSide)
    (hs : side.isFinite = true) : mountedSide.isFinite = true := by
  rcases h with ⟨-, rfl⟩ | ⟨-, rfl⟩
  · exact hs
  · exact opposite_isFinite_iff.mpr hs

theorem IsCopy.angle_within (h : IsCopy angle side mountedAngle mountedSide)
    (ha : mountedAngle.isFinite = true) : mountedAngle.Within turnedRank := by
  rcases h with ⟨rfl, -⟩ | ⟨rfl, -⟩
  · exact degreesToRadians_within_of_isFinite ha
  · exact opposite_within (degreesToRadians_within_of_isFinite (opposite_isFinite_iff.mp ha))

end Copies

theorem Sensor.limit_limit (s : Sensor) : s.limit.asAuthored.limit = s.limit := by
  simp [limit, EntityTable.Sensor.asAuthored, Function.comp_def, Binary64.min_min]

theorem Turret.settled_of_mem_expand {t : Turret} (h : t.Sound) {mounted : EntityTable.Turret}
    (hm : mounted ∈ t.expand) (ha : mounted.angle.isFinite = true) :
    mounted.asAuthored.Sound ∧ mounted.angle.Within turnedRank := by
  have hcopy := isCopy_of_mem_expand hm
  refine ⟨⟨ha, hcopy.side_isFinite h.side, ?_⟩, hcopy.angle_within ha⟩
  show mounted.extra.Lacks knownKeys
  rw [extra_of_mem_expand hm]
  exact h.extra

theorem Armament.settled_of_mem_expand {a : Armament} (h : a.Sound)
    {mounted : EntityTable.Armament} (hm : mounted ∈ a.expand)
    (ha : mounted.angle.isFinite = true) :
    mounted.asAuthored.Sound ∧ mounted.angle.Within turnedRank ∧ mounted.turret = none := by
  have hcopy := isCopy_of_mem_expand hm
  obtain ⟨hextra, hnone⟩ := extra_of_mem_expand hm
  refine ⟨⟨ha, hcopy.side_isFinite h.side, ?_⟩, hcopy.angle_within ha, hnone⟩
  show mounted.extra.Lacks knownKeys
  rw [hextra]
  exact h.extra

/-- What is compiled from sound input is settled, if all its angles are finite. -/
theorem Template.settled_of_compile {owner : Text} {t : Template} {compiled : EntityTable.Template}
    (h : t.Sound) (hc : (t.compile owner).outcome = .ok compiled)
    (hturrets : ∀ turret ∈ compiled.turrets, turret.angle.isFinite = true)
    (harmaments : ∀ armament ∈ compiled.armaments, armament.angle.isFinite = true) :
    compiled.Settled owner := by
  rw [outcome_compile] at hc
  obtain ⟨range, hrange, hc⟩ := bind_eq_ok_iff.mp hc
  obtain ⟨damage, hdamage, rfl⟩ := map_eq_ok_iff.mp hc
  have hturret {turret : EntityTable.Turret} (ht : turret ∈ t.turrets.flatMap Turret.expand) :
      turret.asAuthored.Sound ∧ turret.angle.Within turnedRank := by
    obtain ⟨authored, ha, hm⟩ := List.mem_flatMap.mp ht
    exact Turret.settled_of_mem_expand (h.turrets authored ha) hm (hturrets turret ht)
  have harmament {armament : EntityTable.Armament}
      (ha : armament ∈ t.armaments.flatMap Armament.expand) :
      armament.asAuthored.Sound ∧ armament.angle.Within turnedRank ∧ armament.turret = none := by
    obtain ⟨authored, hauthored, hm⟩ := List.mem_flatMap.mp ha
    exact Armament.settled_of_mem_expand (h.armaments authored hauthored) hm
      (harmaments armament ha)
  have hceiling : sensorRangeCeiling.isFinite = true := by decide +kernel
  refine ⟨⟨h.length, isFinite_of_deriveRange h.length h.range hrange,
    isFinite_of_deriveDamage h.length h.damage hdamage, ?_, ?_, ?_, h.extra⟩,
    fun turret ht => (hturret ht).2, fun armament ha => (harmament ha).2.1,
    fun armament ha => (harmament ha).2.2, deriveRange_again (t := t) rfl rfl rfl hrange,
    deriveDamage_again (t := t) rfl rfl rfl hdamage, ?_⟩
  · intro turret ht
    obtain ⟨mounted, hm, rfl⟩ := List.mem_map.mp ht
    exact (hturret hm).1
  · intro armament ha
    obtain ⟨mounted, hm, rfl⟩ := List.mem_map.mp ha
    exact (harmament hm).1
  · intro sensor hs
    obtain ⟨_, hm, rfl⟩ := List.mem_map.mp hs
    obtain ⟨authored, ha, rfl⟩ := List.mem_map.mp hm
    refine ⟨?_, (h.sensors authored ha).extra⟩
    intro x hx
    obtain ⟨y, hy, rfl⟩ := Option.map_eq_some_iff.mp hx
    exact Binary64.min_isFinite ((h.sensors authored ha).range y hy) hceiling
  · intro sensor hs
    obtain ⟨authored, -, rfl⟩ := List.mem_map.mp hs
    exact Sensor.limit_limit authored

end Authored

/-- Every template is settled, and its turrets carry nothing. -/
structure Table.Settled (table : Table) : Prop where
  templates : ∀ entry ∈ table, entry.2.Settled entry.1
  collected : ∀ entry ∈ table, table.collect [] entry.1 = .ok entry.2.armaments

namespace Table.Settled

variable {table : Table}

/-- Turning all angles changes no reference, so the turrets carry nothing afterwards either. -/
theorem turned (h : table.Settled) : table.turned.Settled := by
  constructor
  · intro entry he
    obtain ⟨original, ho, rfl⟩ := List.mem_map.mp he
    exact (h.templates original ho).turned
  · intro entry he
    obtain ⟨original, ho, rfl⟩ := List.mem_map.mp he
    have hsame (key : Text) : Option.Rel (Template.Related fun a b => a.turned = b)
        (table.get? key) (table.turned.get? key) := by
      rw [Table.turned, Entries.get?_mapValues]
      cases table.get? key with
      | none => exact .none
      | some t =>
        refine .some ⟨?_, ?_⟩
        · simp [Template.turned, Turret.turned, Function.comp_def]
        · exact List.forall₂_map_right_iff.mpr (List.forall₂_same.mpr fun _ _ => rfl)
    obtain ⟨armaments, hcollect, hrelated⟩ := Table.collect_related (fun a b i hab => by
      rw [← hab]; rfl) (fun key _ => hsame key) (h.collected original ho)
    have heq : original.2.armaments.map Armament.turned = armaments := by
      rwa [← List.forall₂_map_left_iff, List.forall₂_eq_eq_eq] at hrelated
    rw [hcollect, ← heq]
    rfl

theorem compileEach (h : table.Settled) :
    (Authored.Table.compileEach (table.mapValues fun _ t => t.asAuthored)).outcome =
      .ok table.turned := by
  rw [Authored.Table.compileEach, Logged.outcome_mapM]
  refine mapM_eq_ok_iff.mpr ?_
  rw [Entries.mapValues, List.forall₂_map_left_iff, Table.turned, Entries.mapValues,
    List.forall₂_map_right_iff, List.forall₂_same]
  intro entry he
  rw [Logged.outcome_bind, Logged.outcome_bind, (h.templates entry he).compile]
  rfl

/-- Compiling such a table anew turns its angles and does nothing else. -/
theorem compile (h : table.Settled) :
    (EntityTable.compile table.toJson).outcome = .ok table.turned.toJson := by
  have hread := Authored.Table.ofJson_toJson (fun entry he => (h.templates entry he).sound)
    fun entry he => (h.templates entry he).uncarried
  have hattached : table.turned.mapM table.turned.attached = .ok table.turned := by
    refine mapM_eq_ok_iff.mpr (List.forall₂_same.mpr fun entry he => ?_)
    rw [attached, h.turned.collected entry he]
    rfl
  rw [outcome_compile_of_ofJson hread h.compileEach, hattached]
  rfl

theorem iterate_turned (h : table.Settled) (n : Nat) : (Table.turned^[n] table).Settled := by
  induction n with
  | zero => exact h
  | succ n ih =>
    rw [Function.iterate_succ_apply']
    exact ih.turned

end Table.Settled
end EntityTable
