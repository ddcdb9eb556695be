import EntityTable.Proofs.Inheritance.History
import EntityTable.Proofs.Outcome

/-!
Full armament lists across a table. Each is the template's own armaments followed, turret by
turret, by the full lists of the templates named there; an armament's index tells its turret.
-/

namespace EntityTable

namespace Turret

variable {full full' : Text → List Armament} {turret : Turret} {index : Nat}

theorem mem_carries {a : Armament} :
    a ∈ turret.carries full index ↔ ∃ target, turret.reference = some target ∧
      ∃ original ∈ full target, original.inherit index = a := by
  unfold carries
  cases turret.reference with
  | none => simp
  | some target => simp

theorem turret_of_mem_carries {a : Armament} (h : a ∈ turret.carries full index) :
    a.turret = some (index : Int) := by
  obtain ⟨target, -, original, -, rfl⟩ := mem_carries.mp h
  rfl

theorem carries_congr
    (h : ∀ target, turret.reference = some target → full target = full' target) :
    turret.carries full index = turret.carries full' index := by
  unfold carries
  cases hr : turret.reference with
  | none => rfl
  | some target => simp [h target hr]

/-- The armaments that the turrets from position `index` on carry in all. -/
def allCarry (full : Text → List Armament) (turrets : List Turret) (index : Nat) :
    List Armament :=
  (turrets.zipIdx index).flatMap fun (turret, i) => turret.carries full i

theorem allCarry_cons (turrets : List Turret) :
    allCarry full (turret :: turrets) index =
      turret.carries full index ++ allCarry full turrets (index + 1) := by
  simp [allCarry]

theorem mem_allCarry {turrets : List Turret} {a : Armament} (h : a ∈ allCarry full turrets 0) :
    ∃ (i : Nat) (carrier : Turret), turrets[i]? = some carrier ∧ a ∈ carrier.carries full i := by
  obtain ⟨⟨carrier, i⟩, he, ha⟩ := List.mem_flatMap.mp h
  exact ⟨i, carrier, List.mem_zipIdx_iff_getElem?.mp he, ha⟩

theorem filter_carries_of_ne {i : Nat} (h : index ≠ i) :
    (turret.carries full index).filter (·.turret = some (i : Int)) = [] := by
  rw [List.filter_eq_nil_iff]
  intro a ha
  have hne : (index : Int) ≠ i := by omega
  simpa [turret_of_mem_carries ha] using hne

theorem filter_carries (turret : Turret) (full : Text → List Armament) (index : Nat) :
    (turret.carries full index).filter (·.turret = some (index : Int)) =
      turret.carries full index := by
  rw [List.filter_eq_self]
  intro a ha
  simp [turret_of_mem_carries ha]

theorem filter_allCarry_of_lt {i : Nat} (turrets : List Turret) (h : i < index) :
    (allCarry full turrets index).filter (·.turret = some (i : Int)) = [] := by
  induction turrets generalizing index with
  | nil => rfl
  | cons turret turrets ih =>
    have hne : index ≠ i := by omega
    rw [allCarry_cons, List.filter_append, filter_carries_of_ne hne, ih (by omega)]
    rfl

/-- An index picks out what its turret carries, and nothing else. -/
theorem filter_allCarry {i : Nat} (turrets : List Turret) (ht : turrets[i]? = some turret) :
    (allCarry full turrets index).filter (·.turret = some ((index + i : Nat) : Int)) =
      turret.carries full (index + i) := by
  induction turrets generalizing index i with
  | nil => simp at ht
  | cons first turrets ih =>
    rw [allCarry_cons, List.filter_append]
    cases i with
    | zero =>
      obtain rfl : first = turret := by simpa using ht
      have hrest : index < index + 1 := by omega
      rw [Nat.add_zero, filter_carries, filter_allCarry_of_lt turrets hrest, List.append_nil]
    | succ i =>
      have hne : index ≠ index + (i + 1) := by omega
      have heq : index + (i + 1) = index + 1 + i := by omega
      rw [filter_carries_of_ne hne, List.nil_append, heq]
      exact ih (by simpa using ht)

/-- The indices of all that is carried, in order. -/
theorem map_turret_allCarry (full : Text → List Armament) (turrets : List Turret) (index : Nat) :
    ∃ indices : List Nat, (allCarry full turrets index).map (·.turret) =
      indices.map (fun i : Nat => some (i : Int)) ∧ indices.Pairwise (· ≤ ·) ∧
        ∀ i ∈ indices, index ≤ i := by
  induction turrets generalizing index with
  | nil => exact ⟨[], rfl, List.Pairwise.nil, by simp⟩
  | cons turret turrets ih =>
    obtain ⟨indices, hmap, hsorted, hle⟩ := ih (index + 1)
    refine ⟨List.replicate (turret.carries full index).length index ++ indices, ?_, ?_, ?_⟩
    · rw [allCarry_cons, List.map_append, List.map_append, hmap, List.map_replicate]
      congr 1
      rw [List.eq_replicate_iff]
      refine ⟨by simp, ?_⟩
      intro b hb
      obtain ⟨a, ha, rfl⟩ := List.mem_map.mp hb
      exact turret_of_mem_carries ha
    · rw [List.pairwise_append]
      refine ⟨List.pairwise_replicate.mpr (.inr (Nat.le_refl index)), hsorted, ?_⟩
      intro i hi j hj
      have hj' := hle j hj
      rw [List.eq_of_mem_replicate hi]
      omega
    · intro i hi
      rcases List.mem_append.mp hi with hi | hi
      · exact Nat.le_of_eq (List.eq_of_mem_replicate hi).symm
      · have hi' := hle i hi
        omega

end Turret

namespace Table

/-- Full armament list of a template, empty where it cannot be collected. -/
def full (table : Table) (key : Text) : List Armament :=
  (table.collect [] key).toOption.getD []

/-- An entry with its full armament list, as a walk without a memory finds it. -/
def attached (table : Table) (entry : Text × Template) : Except Failure (Text × Template) :=
  (table.collect [] entry.1).map fun armaments => (entry.1, { entry.2 with armaments })

variable {table : Table} {visiting : List Text} {key : Text} {armaments : List Armament}

theorem full_of_collect (h : table.collect visiting key = .ok armaments) :
    table.full key = armaments := by
  rw [full, collect_nil h]
  rfl

/-- One level of the inheritance; the rest is in the lists of the templates named. -/
theorem full_eq_append {template : Template} (h : table.collect visiting key = .ok armaments)
    (ht : table.get? key = some template) :
    table.full key = template.armaments ++ Turret.allCarry table.full template.turrets 0 := by
  obtain ⟨-, found, inherited, hf, hc, rfl⟩ := collect_eq_ok h
  obtain rfl : template = found := by simpa [ht] using hf
  rw [full_of_collect h, collectFrom_eq_carries hc]
  congr 1
  apply List.flatMap_congr
  intro entry he
  have hmem : entry.1 ∈ template.turrets :=
    List.mem_of_getElem? (List.mem_zipIdx_iff_getElem?.mp he)
  apply Turret.carries_congr
  intro target hr
  obtain ⟨-, named, hv⟩ := provides_of_collectFrom hc entry.1 hmem target hr
  rw [full_of_collect hv, hv]
  rfl

/-- All entries of a full list are own armaments of some template, as they are or inherited. -/
theorem mem_full {a : Armament} (h : table.collect visiting key = .ok armaments)
    (ha : a ∈ table.full key) :
    ∃ source template, table.get? source = some template ∧
      ∃ own ∈ template.armaments, a = own ∨ ∃ i : Int, a = own.inherit i := by
  induction visiting, key using collect.induct table generalizing a armaments with
  | case1 visiting key hm => simp [collect_of_mem (by simpa using hm)] at h
  | case2 visiting key hm hn =>
    simp [collect_of_unknown (by simpa using hm) (Entries.get?_eq_none_iff.mp hn)] at h
  | case3 visiting key hm template ht ih =>
    rw [full_eq_append h ht, List.mem_append] at ha
    rcases ha with ha | ha
    · exact ⟨key, template, ht, a, ha, .inl rfl⟩
    · obtain ⟨i, turret, hi, hcarried⟩ := Turret.mem_allCarry ha
      obtain ⟨target, hr, original, ho, rfl⟩ := Turret.mem_carries.mp hcarried
      have hstep := (references_iff_of_get? ht).mpr ⟨turret, List.mem_of_getElem? hi, hr⟩
      obtain ⟨-, found, hfound⟩ := collect_target h hstep
      obtain ⟨source, behind, hs, own, hown, hcopy⟩ := ih target hfound ho
      refine ⟨source, behind, hs, own, hown, .inr ⟨i, ?_⟩⟩
      rcases hcopy with rfl | ⟨j, rfl⟩ <;> rfl

end Table

namespace Resolver

/-- Each template is resolved as if it were the only one that is asked for. -/
theorem outcome_attachAll {table : Table} {r : Resolver} (hr : Ready table r) (entries : Table) :
    (r.attachAll entries).outcome = entries.mapM table.attached := by
  induction entries generalizing r with
  | nil => rfl
  | cons entry entries ih =>
    obtain ⟨key, template⟩ := entry
    have hfirst := hr.outcome key
    simp only [attachAll, Logged.outcome_bind, Logged.outcome_pure, List.mapM_cons, hfirst,
      ih (hr.resolve key), Table.attached]
    cases table.collect [] key <;> rfl

theorem attachAll_eq_ok {table entries attached : Table} {r : Resolver} (hr : Ready table r)
    (h : (r.attachAll entries).outcome = .ok attached) :
    (∀ entry ∈ entries, ∃ armaments, table.collect [] entry.1 = .ok armaments) ∧
      attached = entries.mapValues fun key template =>
        { template with armaments := table.full key } := by
  induction entries generalizing r attached with
  | nil =>
    obtain rfl : [] = attached := Except.ok.inj h
    exact ⟨by simp, rfl⟩
  | cons entry entries ih =>
    obtain ⟨key, template⟩ := entry
    simp only [attachAll, Logged.outcome_bind, Logged.outcome_pure] at h
    obtain ⟨armaments, harm, h⟩ := bind_eq_ok_iff.mp h
    obtain ⟨rest, hrest, h⟩ := bind_eq_ok_iff.mp h
    have hfound : table.collect [] key = .ok armaments := (hr.outcome key).symm.trans harm
    obtain ⟨hall, rfl⟩ := ih (hr.resolve key) hrest
    constructor
    · intro entry he
      rcases List.mem_cons.mp he with rfl | he
      · exact ⟨armaments, hfound⟩
      · exact hall entry he
    · obtain rfl := Except.ok.inj h
      simp [Entries.mapValues, Table.full_of_collect hfound]

end Resolver
end EntityTable
