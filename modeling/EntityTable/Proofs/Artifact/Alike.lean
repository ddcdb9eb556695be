import EntityTable.Proofs.Artifact.SelfConsistency
import EntityTable.Proofs.Attributes
import EntityTable.Proofs.Authored.Alike
import EntityTable.Proofs.Inheritance.Related

/-!
The order in which authored objects list their entries shows in the artifact only as the order of
the fields kept aside.
-/

namespace EntityTable

open Authored (SameEntries)

/-- The same turret, but for the order of what is kept aside. -/
structure Turret.Alike (t t' : Turret) : Prop where
  fields : t' = { t with extra := t'.extra }
  extra : SameEntries t.extra t'.extra

structure Armament.Alike (a a' : Armament) : Prop where
  fields : a' = { a with extra := a'.extra }
  extra : SameEntries a.extra a'.extra

structure Sensor.Alike (s s' : Sensor) : Prop where
  fields : s' = { s with extra := s'.extra }
  extra : SameEntries s.extra s'.extra

/-- The same template, but for the order of what is kept aside in it and in its mounts. -/
structure Template.Alike (t t' : Template) : Prop where
  attributes : t' = { t with
    turrets := t'.turrets
    armaments := t'.armaments
    sensors := t'.sensors
    extra := t'.extra }
  turrets : List.Forall₂ Turret.Alike t.turrets t'.turrets
  armaments : List.Forall₂ Armament.Alike t.armaments t'.armaments
  sensors : List.Forall₂ Sensor.Alike t.sensors t'.sensors
  extra : SameEntries t.extra t'.extra

theorem Armament.Alike.inherit {a a' : Armament} (h : a.Alike a') (turret : Int) :
    (a.inherit turret).Alike (a'.inherit turret) :=
  ⟨by rw [h.fields]; rfl, h.extra⟩

/-! ### Compiled on their own -/

namespace Authored

theorem Turret.alike_expand {t t' : Turret} (h : t.Alike t') :
    List.Forall₂ EntityTable.Turret.Alike t.expand t'.expand := by
  rw [h.fields]
  unfold expand
  split
  · exact .cons ⟨rfl, h.extra⟩ (.cons ⟨rfl, h.extra⟩ .nil)
  · exact .cons ⟨rfl, h.extra⟩ .nil

theorem Armament.alike_expand {a a' : Armament} (h : a.Alike a') :
    List.Forall₂ EntityTable.Armament.Alike a.expand a'.expand := by
  rw [h.fields]
  unfold expand
  split
  · exact .cons ⟨rfl, h.extra⟩ (.cons ⟨rfl, h.extra⟩ .nil)
  · exact .cons ⟨rfl, h.extra⟩ .nil

theorem Sensor.alike_limit {s s' : Sensor} (h : s.Alike s') : s.limit.Alike s'.limit :=
  ⟨by rw [h.fields]; rfl, h.extra⟩

theorem Template.alike_compile {t t' : Template} (h : t.Alike t') {owner : Text}
    {compiled compiled' : EntityTable.Template} (hc : (t.compile owner).outcome = .ok compiled)
    (hc' : (t'.compile owner).outcome = .ok compiled') : compiled.Alike compiled' := by
  have hrange : t'.deriveRange owner = t.deriveRange owner := by
    rw [h.attributes]
    rfl
  have hdamage : t'.deriveDamage owner = t.deriveDamage owner := by
    rw [h.attributes]
    rfl
  rw [outcome_compile] at hc hc'
  obtain ⟨range, hr, hc⟩ := bind_eq_ok_iff.mp hc
  obtain ⟨damage, hd, rfl⟩ := map_eq_ok_iff.mp hc
  obtain ⟨range', hr', hc'⟩ := bind_eq_ok_iff.mp hc'
  obtain ⟨damage', hd', rfl⟩ := map_eq_ok_iff.mp hc'
  obtain rfl : range = range' := Except.ok.inj (hr.symm.trans (hrange.symm.trans hr'))
  obtain rfl : damage = damage' :=
    Except.ok.inj (hd.symm.trans ((congrArg Logged.outcome hdamage.symm).trans hd'))
  have hsensors : List.Forall₂ EntityTable.Sensor.Alike (t.sensors.map Sensor.limit)
      (t'.sensors.map Sensor.limit) := by
    rw [List.forall₂_map_left_iff, List.forall₂_map_right_iff]
    exact h.sensors.imp fun _ _ => Sensor.alike_limit
  refine ⟨?_, List.rel_flatMap h.turrets fun _ _ => Turret.alike_expand,
    List.rel_flatMap h.armaments fun _ _ => Armament.alike_expand,
    hsensors, h.extra⟩
  rw [h.attributes]

end Authored

/-! ### Rendered -/

theorem Json.alike_float (x : Binary64) : (Json.float x).Alike (.float x) := ⟨trivial, .float x⟩

theorem Json.alike_string (t : Text) : (Json.string t).Alike (.string t) := ⟨trivial, .string t⟩

theorem Authored.SameEntries.putSome {α : Type} {members members' : Entries Json}
    (h : SameEntries members members') (key : Text) {toJson : α → Json} (value : Option α)
    (hd : ∀ x, (toJson x).KeysDistinct) :
    SameEntries (EntityTable.putSome key toJson value members)
      (EntityTable.putSome key toJson value members') := by
  cases value with
  | none => exact h
  | some x => exact h.put key ⟨hd x, .refl _⟩

theorem Turret.Alike.members {t t' : Turret} (h : t.Alike t') :
    SameEntries t.members t'.members := by
  rw [h.fields]
  have hside := (h.extra.put "angle" (Json.alike_float t.angle)).put "positionSide"
    (Json.alike_float t.side)
  exact SameEntries.putSome hside "type" t.reference fun _ => trivial

theorem Armament.Alike.members {a a' : Armament} (h : a.Alike a') :
    SameEntries a.members a'.members := by
  rw [h.fields]
  have hside := (h.extra.put "angle" (Json.alike_float a.angle)).put "positionSide"
    (Json.alike_float a.side)
  exact SameEntries.putSome hside "turret" a.turret fun _ => trivial

theorem Sensor.Alike.toJson {s s' : Sensor} (h : s.Alike s') : s.toJson.Alike s'.toJson := by
  rw [h.fields]
  exact SameEntries.putSome h.extra "range" s.range fun _ => trivial

theorem Template.Alike.attributeMembers {t t' : Template} (h : t.Alike t') :
    SameEntries t.attributeMembers t'.attributeMembers := by
  rw [h.attributes]
  have hkind := h.extra.putSome "type" t.kind fun t => (Json.alike_string t).distinct
  have hsubtype := hkind.putSome "subtype" t.subtype fun t => (Json.alike_string t).distinct
  have hlength := hsubtype.putSome "length" t.length fun x => (Json.alike_float x).distinct
  have hrange := hlength.putSome "range" t.range fun x => (Json.alike_float x).distinct
  exact hrange.putSome "damage" t.damage fun x => (Json.alike_float x).distinct

theorem Template.Alike.toJson {t t' : Template} (h : t.Alike t') : t.toJson.Alike t'.toJson := by
  have harray {α : Type} {R : α → α → Prop} {render : α → Json} {xs ys : List α}
      (hR : ∀ x y, R x y → (render x).Alike (render y)) (hxs : List.Forall₂ R xs ys) :
      (Json.array (xs.map render)).Alike (.array (ys.map render)) := by
    rw [Json.Alike.array_iff, List.forall₂_map_left_iff, List.forall₂_map_right_iff]
    exact hxs.imp hR
  have hturrets := harray (fun _ _ ht => Turret.Alike.members ht) h.turrets
  have harmaments := harray (fun _ _ ha => Armament.Alike.members ha) h.armaments
  have hsensors := harray (fun _ _ hs => Sensor.Alike.toJson hs) h.sensors
  exact ((h.attributeMembers.put "turrets" hturrets).put "armaments" harmaments).put "sensors"
    hsensors

namespace Table

variable {table table' : Table}

/-- Alike tables render alike, with the full armament lists too. -/
theorem sameEntries_rendered (hn : table.keys.Nodup) (hn' : table'.keys.Nodup)
    (h : ∀ key, Option.Rel Template.Alike (table.get? key) (table'.get? key))
    (hc : ∀ entry ∈ table, ∃ armaments, table.collect [] entry.1 = .ok armaments) :
    SameEntries table.rendered table'.rendered := by
  have hrelated (key : Text) :
      Option.Rel (Template.Related Armament.Alike) (table.get? key) (table'.get? key) := by
    have hkey := h key
    generalize table.get? key = t at hkey ⊢
    generalize table'.get? key = t' at hkey ⊢
    cases hkey with
    | none => exact .none
    | some halike =>
      refine .some ⟨?_, halike.armaments⟩
      rw [← List.forall₂_eq_eq_eq, List.forall₂_map_left_iff, List.forall₂_map_right_iff]
      exact halike.turrets.imp fun t t' ht => by rw [ht.fields]
  refine Json.Alike.object_iff.mpr
    ⟨(Entries.keys_mapValues _ table).symm ▸ hn, (Entries.keys_mapValues _ table').symm ▸ hn', ?_⟩
  intro key
  have hkey := h key
  rw [rendered, rendered, Entries.get?_mapValues, Entries.get?_mapValues]
  cases ht : table.get? key with
  | none =>
    rw [ht] at hkey
    generalize table'.get? key = t' at hkey ⊢
    cases hkey
    exact .none
  | some t =>
    obtain ⟨armaments, hcollect⟩ := hc _ (Entries.mem_of_get? ht)
    have hfull := full_related (fun _ _ i ha => ha.inherit i) hrelated hcollect
    rw [ht] at hkey
    generalize table'.get? key = t' at hkey ⊢
    cases hkey with
    | some halike =>
      refine .some (Template.Alike.toJson ⟨?_, halike.turrets, hfull, halike.sensors, halike.extra⟩)
      rw [halike.attributes]

end Table
end EntityTable
