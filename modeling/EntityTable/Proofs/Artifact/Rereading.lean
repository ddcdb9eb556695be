import EntityTable.Proofs.Artifact.Members
import EntityTable.Proofs.Authored.Sound

/-!
Reading a rendered template as an authored one gives back what was rendered, every mount on its own.
Only an armament that is carried by a turret is refused.
-/

namespace EntityTable

/-- The authored turret with these values, standing for itself alone. -/
def Turret.asAuthored (t : Turret) : Authored.Turret :=
  ⟨t.angle, t.side, false, t.reference, t.extra⟩

def Armament.asAuthored (a : Armament) : Authored.Armament := ⟨a.angle, a.side, false, a.extra⟩

def Sensor.asAuthored (s : Sensor) : Authored.Sensor := ⟨s.range, s.extra⟩

def Template.asAuthored (t : Template) : Authored.Template :=
  ⟨t.kind, t.subtype, t.length, t.range, t.damage, t.turrets.map Turret.asAuthored,
    t.armaments.map Armament.asAuthored, t.sensors.map Sensor.asAuthored, t.extra⟩

/-! ### Fields -/

theorem Entries.get?_of_lacks {entries : Entries Json} {known : List Text} {key : Text}
    (h : entries.Lacks known) (hk : key ∈ known) : entries.get? key = none :=
  Entries.get?_eq_none_iff.mpr (h key hk)

theorem without_putSome {α : Type} {known : List Text} {key : Text} (hk : key ∈ known)
    (toJson : α → Json) (value : Option α) (members : Entries Json) :
    Entries.without known (putSome key toJson value members) = members.without known := by
  cases value with
  | none => rfl
  | some x => exact Entries.without_put hk members (toJson x)

namespace Authored

theorem number?_float {site : Site} {x : Binary64} (h : x.isFinite = true) :
    number? site (some (.float x)) = .ok (some x) := by
  rw [number?, if_pos h]

theorem number?_map {site : Site} {value : Option Binary64} (h : ∀ x ∈ value, x.isFinite = true) :
    number? site (value.map .float) = .ok value := by
  cases value with
  | none => rfl
  | some x => exact number?_float (h x rfl)

theorem string?_map {site : Site} (value : Option Text) :
    string? site (value.map .string) = .ok value := by
  cases value <;> rfl

/-! ### Mounts -/

theorem Turret.ofMembers_members {t : EntityTable.Turret} (h : t.asAuthored.Sound) (owner : Text)
    (index : Nat) : ofMembers owner index t.members = .ok t.asAuthored := by
  have hextra : t.extra.Lacks knownKeys := h.extra
  have hside : t.members.get? "positionSide" = some (.float t.side) := by
    simp +decide [EntityTable.Turret.members, get?_putSome]
  have hsymmetrical : t.members.get? "symmetrical" = none := by
    simpa +decide [EntityTable.Turret.members, get?_putSome] using
      Entries.get?_of_lacks hextra (by decide)
  have hwithout : t.members.without knownKeys = t.extra := by
    rw [EntityTable.Turret.members, without_putSome (by decide), Entries.without_put (by decide),
      Entries.without_put (by decide), Entries.without_of_lacks hextra]
  rw [ofMembers, EntityTable.Turret.get?_angle_members, hside, hsymmetrical, hwithout,
    EntityTable.Turret.get?_type_members hextra,
    number?_float (x := t.angle) h.angle, number?_float (x := t.side) h.side, string?_map]
  rfl

theorem Armament.ofMembers_members {a : EntityTable.Armament} (h : a.asAuthored.Sound)
    (hturret : a.turret = none) (owner : Text) (index : Nat) :
    ofMembers owner index a.members = .ok a.asAuthored := by
  have hextra : a.extra.Lacks knownKeys := h.extra
  have hside : a.members.get? "positionSide" = some (.float a.side) := by
    simp +decide [EntityTable.Armament.members, get?_putSome]
  have hsymmetrical : a.members.get? "symmetrical" = none := by
    simpa +decide [EntityTable.Armament.members, get?_putSome] using
      Entries.get?_of_lacks hextra (by decide)
  have hwithout : a.members.without knownKeys = a.extra := by
    rw [EntityTable.Armament.members, without_putSome (by decide), Entries.without_put (by decide),
      Entries.without_put (by decide), Entries.without_of_lacks hextra]
  rw [ofMembers, EntityTable.Armament.get?_angle_members, hside, hsymmetrical, hwithout,
    EntityTable.Armament.get?_turret_members hextra, hturret, number?_float (x := a.angle) h.angle,
    number?_float (x := a.side) h.side]
  rfl

/-- An armament that says which turret carries it is refused for that alone. -/
theorem Armament.ofMembers_members_of_carried {a : EntityTable.Armament} (h : a.asAuthored.Sound)
    (hturret : a.turret ≠ none) (owner : Text) (index : Nat) :
    ofMembers owner index a.members = .error (.malformed .turretDeclared (some owner)
      (some (.mountAttribute .armaments index "turret"))) := by
  have hextra : a.extra.Lacks knownKeys := h.extra
  obtain ⟨i, hi⟩ := Option.ne_none_iff_exists'.mp hturret
  rw [ofMembers, EntityTable.Armament.get?_turret_members hextra, hi]
  rfl

theorem Sensor.ofMembers_members {s : EntityTable.Sensor} (h : s.asAuthored.Sound) (owner : Text)
    (index : Nat) : ofMembers owner index s.members = .ok s.asAuthored := by
  have hextra : s.extra.Lacks knownKeys := h.extra
  have hrange : s.members.get? "range" = s.range.map .float := by
    rw [EntityTable.Sensor.members, get?_putSome, if_pos rfl,
      Entries.get?_of_lacks hextra (by decide), Option.or_none]
  have hfinite : ∀ x ∈ s.range, x.isFinite = true := h.range
  rw [ofMembers, hrange, number?_map hfinite, EntityTable.Sensor.members,
    without_putSome (by decide), Entries.without_of_lacks hextra]
  rfl

section Lists

variable {α β : Type} {owner : Text} {members : Members} {list : MountList}
  {ofMembers : Text → Nat → Members → Except Failure β} {render : α → Members} {back : α → β}

theorem mountObjects_map {xs : List α}
    (hlist : members.get? list.key = some (.array (xs.map fun x => .object (render x)))) :
    mountObjects owner members list = .ok (xs.map render) := by
  rw [mountObjects, hlist]
  have hitems : List.Forall₂ (fun (item : Json) object => item = .object object)
      ((xs.map fun x => Json.object (render x)).zipIdx.map Prod.fst) (xs.map render) := by
    rw [List.zipIdx_map_fst, List.forall₂_map_left_iff, List.forall₂_map_right_iff,
      List.forall₂_same]
    exact fun _ _ => rfl
  rw [List.forall₂_map_left_iff] at hitems
  refine mapM_eq_ok_iff.mpr (hitems.imp ?_)
  intro entry object hentry
  obtain ⟨item, index⟩ := entry
  obtain rfl : item = .object object := hentry
  rfl

/-- Mounts that each can be read back are read back as a list. -/
theorem mounts_map {xs : List α}
    (hlist : members.get? list.key = some (.array (xs.map fun x => .object (render x))))
    (hback : ∀ x ∈ xs, ∀ index, ofMembers owner index (render x) = .ok (back x)) :
    mounts owner members list ofMembers = .ok (xs.map back) := by
  rw [mounts, mountObjects_map hlist]
  have hitems : List.Forall₂ (fun object mount => ∀ index, ofMembers owner index object = .ok mount)
      ((xs.map render).zipIdx.map Prod.fst) (xs.map back) := by
    rw [List.zipIdx_map_fst, List.forall₂_map_left_iff, List.forall₂_map_right_iff,
      List.forall₂_same]
    exact hback
  rw [List.forall₂_map_left_iff] at hitems
  exact mapM_eq_ok_iff.mpr (hitems.imp fun entry mount hentry => hentry entry.2)

/-- The first mount that is refused decides for the list. -/
theorem mounts_eq_error {before after : List α} {x : α} {failure : Failure}
    (hlist : members.get? list.key =
      some (.array ((before ++ x :: after).map fun x => .object (render x))))
    (hback : ∀ y ∈ before, ∀ index, ofMembers owner index (render y) = .ok (back y))
    (hfails : ofMembers owner before.length (render x) = .error failure) :
    mounts owner members list ofMembers = .error failure := by
  rw [mounts, mountObjects_map hlist]
  refine mapM_eq_error_iff.mpr ⟨(before.map render).zipIdx, (render x, before.length),
    (after.map render).zipIdx (before.length + 1), ?_, ?_, hfails⟩
  · simp [List.zipIdx_append, List.zipIdx_cons]
  · intro entry he
    have hm : entry.1 ∈ before.map render :=
      List.mem_of_getElem? (List.mem_zipIdx_iff_getElem?.mp he)
    obtain ⟨y, hy, heq⟩ := List.mem_map.mp hm
    obtain ⟨object, index⟩ := entry
    obtain rfl : render y = object := heq
    exact ⟨back y, hback y hy index⟩

end Lists

/-! ### Templates and tables -/

section Templates

variable {t : EntityTable.Template}

theorem Template.get?_members_of_ne {key : Text} (hturrets : key ≠ "turrets")
    (harmaments : key ≠ "armaments") (hsensors : key ≠ "sensors") :
    t.members.get? key = t.attributeMembers.get? key := by
  simp [EntityTable.Template.members, hturrets.symm, harmaments.symm, hsensors.symm]

/-- The attributes of a rendered template, and what is kept aside in it. -/
theorem Template.ofMembers_members_eq (h : t.asAuthored.Sound) (owner : Text) :
    ofMembers owner t.members =
      mounts owner t.members .turrets Turret.ofMembers >>= fun turrets =>
      mounts owner t.members .armaments Armament.ofMembers >>= fun armaments =>
      mounts owner t.members .sensors Sensor.ofMembers >>= fun sensors =>
        .ok ⟨t.kind, t.subtype, t.length, t.range, t.damage, turrets, armaments, sensors,
          t.extra⟩ := by
  have hextra : t.extra.Lacks knownKeys := h.extra
  have hnone (key : Text) (hk : key ∈ knownKeys) : t.extra.get? key = none :=
    Entries.get?_of_lacks hextra hk
  have hkind : t.members.get? "type" = t.kind.map .string := by
    simp +decide [get?_members_of_ne, EntityTable.Template.attributeMembers, get?_putSome,
      hnone "type" (by decide)]
  have hsubtype : t.members.get? "subtype" = t.subtype.map .string := by
    simp +decide [get?_members_of_ne, EntityTable.Template.attributeMembers, get?_putSome,
      hnone "subtype" (by decide)]
  have hlength : t.members.get? "length" = t.length.map .float := by
    simp +decide [get?_members_of_ne, EntityTable.Template.attributeMembers, get?_putSome,
      hnone "length" (by decide)]
  have hrange : t.members.get? "range" = t.range.map .float := by
    simp +decide [get?_members_of_ne, EntityTable.Template.attributeMembers, get?_putSome,
      hnone "range" (by decide)]
  have hdamage : t.members.get? "damage" = t.damage.map .float := by
    simp +decide [get?_members_of_ne, EntityTable.Template.attributeMembers, get?_putSome,
      hnone "damage" (by decide)]
  have hwithout : t.members.without knownKeys = t.extra := by
    rw [EntityTable.Template.members, Entries.without_put (by decide),
      Entries.without_put (by decide), Entries.without_put (by decide),
      EntityTable.Template.attributeMembers, without_putSome (by decide),
      without_putSome (by decide), without_putSome (by decide), without_putSome (by decide),
      without_putSome (by decide), Entries.without_of_lacks hextra]
  have hfinite : (∀ x ∈ t.length, x.isFinite = true) ∧ (∀ x ∈ t.range, x.isFinite = true) ∧
      ∀ x ∈ t.damage, x.isFinite = true := ⟨h.length, h.range, h.damage⟩
  rw [ofMembers, hkind, hsubtype, hlength, hrange, hdamage, hwithout, string?_map, string?_map,
    number?_map hfinite.1, number?_map hfinite.2.1, number?_map hfinite.2.2]
  rfl

theorem Template.mounts_turrets (h : t.asAuthored.Sound) (owner : Text) :
    mounts owner t.members .turrets Turret.ofMembers =
      .ok (t.turrets.map EntityTable.Turret.asAuthored) := by
  obtain ⟨members, heq, hlist⟩ := t.mounts_turrets
  obtain rfl := Json.object.inj heq
  rw [List.map_map] at hlist
  exact mounts_map hlist fun turret ht index =>
    Turret.ofMembers_members (h.turrets _ (List.mem_map_of_mem ht)) owner index

theorem Template.mounts_sensors (h : t.asAuthored.Sound) (owner : Text) :
    mounts owner t.members .sensors Sensor.ofMembers =
      .ok (t.sensors.map EntityTable.Sensor.asAuthored) := by
  have hlist : t.members.get? "sensors" =
      some (.array (t.sensors.map EntityTable.Sensor.toJson)) := by
    simp [EntityTable.Template.members]
  exact mounts_map hlist fun sensor hs index =>
    Sensor.ofMembers_members (h.sensors _ (List.mem_map_of_mem hs)) owner index

/-- A template without carried armaments is read back as it is. -/
theorem Template.ofMembers_members (h : t.asAuthored.Sound)
    (hown : ∀ armament ∈ t.armaments, armament.turret = none) (owner : Text) :
    ofMembers owner t.members = .ok t.asAuthored := by
  obtain ⟨members, heq, hlist⟩ := t.mounts_armaments
  obtain rfl := Json.object.inj heq
  rw [List.map_map] at hlist
  have harmaments : mounts owner t.members .armaments Armament.ofMembers =
      .ok (t.armaments.map EntityTable.Armament.asAuthored) :=
    mounts_map hlist fun armament ha index =>
      Armament.ofMembers_members (h.armaments _ (List.mem_map_of_mem ha)) (hown armament ha)
        owner index
  rw [ofMembers_members_eq h, mounts_turrets h, harmaments, mounts_sensors h]
  rfl

/-- Otherwise the first armament that is carried is refused. -/
theorem Template.ofMembers_members_of_carried (h : t.asAuthored.Sound)
    {before after : List EntityTable.Armament} {carried : EntityTable.Armament}
    (hsplit : t.armaments = before ++ carried :: after)
    (hown : ∀ armament ∈ before, armament.turret = none) (hcarried : carried.turret ≠ none)
    (owner : Text) : ofMembers owner t.members = .error (.malformed .turretDeclared (some owner)
      (some (.mountAttribute .armaments before.length "turret"))) := by
  obtain ⟨members, heq, hlist⟩ := t.mounts_armaments
  obtain rfl := Json.object.inj heq
  rw [List.map_map, hsplit] at hlist
  have hread (armament : EntityTable.Armament) (ha : armament ∈ before ++ carried :: after) :=
    h.armaments _ (List.mem_map_of_mem (hsplit ▸ ha))
  have harmaments : mounts owner t.members .armaments Armament.ofMembers = .error _ :=
    mounts_eq_error hlist
      (fun armament ha index => Armament.ofMembers_members
        (hread armament (List.mem_append_left _ ha)) (hown armament ha) owner index)
      (Armament.ofMembers_members_of_carried (hread carried (by simp)) hcarried owner before.length)
  rw [ofMembers_members_eq h, mounts_turrets h, harmaments]
  rfl

/-- A rendered template is read back as it is, every mount for itself. If armaments of it are carried,
it is refused for the first of these instead. -/
theorem Template.ofJson_rendered (h : t.asAuthored.Sound) (owner : Text) :
    ((∀ armament ∈ t.armaments, armament.turret = none) →
      ofJson owner t.toJson = .ok t.asAuthored) ∧
    ((∃ armament ∈ t.armaments, armament.turret ≠ none) →
      ∃ before carried after, t.armaments = before ++ carried :: after ∧
        (∀ armament ∈ before, armament.turret = none) ∧ carried.turret ≠ none ∧
        ofJson owner t.toJson = .error (.malformed .turretDeclared (some owner)
          (some (.mountAttribute .armaments before.length "turret")))) := by
  constructor
  · intro hown
    exact ofMembers_members h hown owner
  · rintro ⟨armament, ha, hturret⟩
    have hsome : ¬∀ armament ∈ t.armaments, armament.turret = none :=
      fun hown => hturret (hown armament ha)
    obtain ⟨before, carried, after, hsplit, hown, hcarried⟩ := exists_first hsome
    exact ⟨before, carried, after, hsplit, hown, hcarried,
      ofMembers_members_of_carried h hsplit hown hcarried owner⟩

def bowGun : EntityTable.Armament := ⟨0, 1, none, [("type", .null), ("range", .int 3)]⟩

def sternGun (turret : Option Int) : EntityTable.Armament := ⟨0, -1, turret, []⟩

/-- A boat whose second gun is carried if an index is given for it. -/
def gunboat (turret : Option Int) : EntityTable.Template where
  kind := some "weapon"
  subtype := none
  length := some 7
  range := none
  damage := some 0.5
  turrets := [⟨1, -2, some "gun", [("armaments", .array [])]⟩]
  armaments := [bowGun, sternGun turret]
  sensors := [⟨some 100, [("turret", .int 0)]⟩]
  extra := [("symmetrical", .bool true)]

theorem ofJson_gunboat : Template.ofJson "boat" (gunboat none).toJson =
      .ok (gunboat none).asAuthored ∧
    Template.ofJson "boat" (gunboat (some 0)).toJson = .error (.malformed .turretDeclared
      (some "boat") (some (.mountAttribute .armaments 1 "turret"))) := by
  have hown : (gunboat none).asAuthored.Sound := by decide +kernel
  have hcarried : (gunboat (some 0)).asAuthored.Sound := by decide +kernel
  constructor
  · exact (Template.ofJson_rendered hown "boat").1 (by decide)
  · obtain ⟨before, carried, after, hsplit, -, hturret, hread⟩ :=
      (Template.ofJson_rendered hcarried "boat").2
        ⟨sternGun (some 0), List.mem_cons_of_mem _ (List.mem_singleton_self _),
          Option.some_ne_none 0⟩
    have hguns : [bowGun, sternGun (some 0)] = before ++ carried :: after := hsplit
    have hlength : before.length = 1 := by
      match before, hguns with
      | [], hguns =>
        obtain ⟨rfl, -⟩ := List.cons.inj hguns
        exact absurd rfl hturret
      | [_], _ => rfl
      | _ :: _ :: _, hguns =>
        have hrest := (List.cons.inj (List.cons.inj hguns).2).2
        exact absurd hrest.symm (List.append_ne_nil_of_right_ne_nil _ (List.cons_ne_nil _ _))
    rw [hlength] at hread
    exact hread

end Templates

namespace Table

variable {table : EntityTable.Table}

theorem ofJson_toJson_eq (table : EntityTable.Table) : ofJson table.toJson =
    table.mapM fun entry => (Template.ofMembers entry.1 entry.2.members).map fun t =>
      (entry.1, t) := by
  rw [EntityTable.Table.toJson, ofJson, Entries.mapValues, List.mapM_map]
  congr 1

/-- A table in which nothing is carried is read back as it is. -/
theorem ofJson_toJson (h : ∀ entry ∈ table, entry.2.asAuthored.Sound)
    (hown : ∀ entry ∈ table, ∀ armament ∈ entry.2.armaments, armament.turret = none) :
    ofJson table.toJson = .ok (table.mapValues fun _ t => t.asAuthored) := by
  rw [ofJson_toJson_eq]
  refine mapM_eq_ok_iff.mpr (List.forall₂_map_right_iff.mpr (List.forall₂_same.mpr ?_))
  intro entry he
  rw [Template.ofMembers_members (h entry he) (hown entry he)]
  rfl

/-- Otherwise the first carried armament of the first template that has one is refused. -/
theorem ofJson_toJson_of_carried (h : ∀ entry ∈ table, entry.2.asAuthored.Sound)
    {before after : EntityTable.Table} {key : Text} {t : EntityTable.Template}
    (hsplit : table = before ++ (key, t) :: after)
    (hown : ∀ entry ∈ before, ∀ armament ∈ entry.2.armaments, armament.turret = none)
    {own rest : List EntityTable.Armament} {carried : EntityTable.Armament}
    (hsplit' : t.armaments = own ++ carried :: rest)
    (hown' : ∀ armament ∈ own, armament.turret = none) (hcarried : carried.turret ≠ none) :
    ofJson table.toJson = .error (.malformed .turretDeclared (some key)
      (some (.mountAttribute .armaments own.length "turret"))) := by
  have hread (entry : Text × EntityTable.Template) (he : entry ∈ before ++ (key, t) :: after) :=
    h entry (hsplit ▸ he)
  rw [ofJson_toJson_eq]
  refine mapM_eq_error_iff.mpr ⟨before, (key, t), after, hsplit, ?_, ?_⟩
  · intro entry he
    rw [Template.ofMembers_members (hread entry (List.mem_append_left _ he)) (hown entry he)]
    exact ⟨_, rfl⟩
  · rw [Template.ofMembers_members_of_carried (hread (key, t) (by simp)) hsplit' hown' hcarried]
    rfl

end Table

end Authored
end EntityTable
