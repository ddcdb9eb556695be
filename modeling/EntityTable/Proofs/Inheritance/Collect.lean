import EntityTable.Inheritance
import EntityTable.Proofs.Inheritance.References
import EntityTable.Proofs.Outcome

/-!
The walk along references without a memory: every template is walked afresh wherever it is named.
-/

namespace EntityTable

/-- Armaments that a turret at position `index` carries, where `full` gives those of a template. -/
def Turret.carries (full : Text → List Armament) (turret : Turret) (index : Nat) :
    List Armament :=
  match turret.reference with
  | none => []
  | some target => (full target).map (·.inherit index)

namespace Table

/-- Armaments carried by the turrets from position `index` on, where `visit` collects those of a
referenced template. -/
def collectFrom (visit : Text → Except Failure (List Armament)) (table : Table) (owner : Text) :
    Nat → List Turret → Except Failure (List Armament)
  | _, [] => .ok []
  | index, turret :: turrets =>
    match turret.reference with
    | none => collectFrom visit table owner (index + 1) turrets
    | some target =>
      if table.contains target then
        match visit target with
        | .error failure => .error failure
        | .ok armaments =>
          (collectFrom visit table owner (index + 1) turrets).map fun more =>
            armaments.map (·.inherit index) ++ more
      else .error (.unknownReference owner index target)

/-- Full armament list of a template; `visiting` are the templates on the way to it. -/
def collect (table : Table) (visiting : List Text) (key : Text) :
    Except Failure (List Armament) :=
  if _fresh : visiting.contains key then
    .error (.referenceCycle (visiting.dropWhile (· ≠ key) ++ [key]))
  else
    match _known : table.get? key with
    | none => .error (.unknownKey key)
    | some template =>
      (collectFrom (fun target => table.collect (visiting ++ [key]) target)
        table key 0 template.turrets).map fun inherited => template.armaments ++ inherited
termination_by table.unvisited visiting
decreasing_by exact unvisited_lt _fresh (Entries.mem_keys_of_get? _known)

/-- Every template that the turrets name is in the table and can be visited. -/
def Provides (table : Table) (visit : Text → Except Failure (List Armament))
    (turrets : List Turret) : Prop :=
  ∀ turret ∈ turrets, ∀ target, turret.reference = some target →
    target ∈ table.keys ∧ ∃ armaments, visit target = .ok armaments

section Turrets

variable {visit : Text → Except Failure (List Armament)} {table : Table} {owner : Text}
  {turrets : List Turret} {index : Nat}

theorem provides_cons_iff {turret : Turret} :
    table.Provides visit (turret :: turrets) ↔
      table.Provides visit [turret] ∧ table.Provides visit turrets := by
  simp [Provides]

/-- A turret that names nothing adds nothing, and any other one what its template gives. -/
theorem collectFrom_cons_eq_ok_iff {turret : Turret} {carried : List Armament} :
    collectFrom visit table owner index (turret :: turrets) = .ok carried ↔
      turret.reference = none ∧
          collectFrom visit table owner (index + 1) turrets = .ok carried ∨
        ∃ target armaments more, turret.reference = some target ∧ target ∈ table.keys ∧
          visit target = .ok armaments ∧
          collectFrom visit table owner (index + 1) turrets = .ok more ∧
          armaments.map (·.inherit index) ++ more = carried := by
  rw [collectFrom]
  cases hr : turret.reference with
  | none => simp
  | some target =>
    by_cases hk : target ∈ table.keys
    · have hc : table.contains target = true := Entries.contains_iff.mpr hk
      cases hv : visit target <;> simp [hc, hk, hv, map_eq_ok_iff]
    · have hc : ¬table.contains target = true := mt Entries.contains_iff.mp hk
      simp [hc, hk]

/-- Either the turret itself fails, or it can be visited and one behind it fails. -/
theorem collectFrom_cons_eq_error_iff {turret : Turret} {failure : Failure} :
    collectFrom visit table owner index (turret :: turrets) = .error failure ↔
      table.Provides visit [turret] ∧
          collectFrom visit table owner (index + 1) turrets = .error failure ∨
        ∃ target, turret.reference = some target ∧
          (target ∉ table.keys ∧ failure = .unknownReference owner index target ∨
            target ∈ table.keys ∧ visit target = .error failure) := by
  rw [collectFrom]
  cases hr : turret.reference with
  | none => simp [Provides, hr]
  | some target =>
    by_cases hk : target ∈ table.keys
    · have hc : table.contains target = true := Entries.contains_iff.mpr hk
      cases hv : visit target <;> simp [Provides, hr, hc, hk, hv, map_eq_error_iff]
    · have hc : ¬table.contains target = true := mt Entries.contains_iff.mp hk
      simp [Provides, hr, hc, hk, eq_comm]

theorem collectFrom_of_visits (full : Text → List Armament)
    (h : ∀ turret ∈ turrets, ∀ target, turret.reference = some target →
      target ∈ table.keys ∧ visit target = .ok (full target)) :
    collectFrom visit table owner index turrets =
      .ok ((turrets.zipIdx index).flatMap fun (turret, i) => turret.carries full i) := by
  induction turrets generalizing index with
  | nil => rfl
  | cons turret turrets ih =>
    have hrest := @ih (index + 1) fun t ht => h t (List.mem_cons_of_mem _ ht)
    rw [collectFrom, List.zipIdx_cons, List.flatMap_cons]
    cases hr : turret.reference with
    | none => simp [hrest, Turret.carries, hr]
    | some target =>
      obtain ⟨hk, hv⟩ := h turret (List.mem_cons_self ..) target hr
      have hc : table.contains target = true := Entries.contains_iff.mpr hk
      simp [hc, hv, hrest, Turret.carries, hr, Except.map]

theorem provides_of_collectFrom {carried : List Armament}
    (h : collectFrom visit table owner index turrets = .ok carried) :
    table.Provides visit turrets := by
  induction turrets generalizing index carried with
  | nil =>
    intro turret ht
    cases ht
  | cons turret turrets ih =>
    rw [provides_cons_iff]
    rcases collectFrom_cons_eq_ok_iff.mp h with
      ⟨hr, hrest⟩ | ⟨target, armaments, more, hr, hk, hv, hrest, -⟩
    · exact ⟨by simp [Provides, hr], ih hrest⟩
    · exact ⟨by simp [Provides, hr, hk, hv], ih hrest⟩

/-- What the turrets carry hangs only on what the visit gives for the templates they name. -/
theorem collectFrom_eq_carries {carried : List Armament}
    (h : collectFrom visit table owner index turrets = .ok carried) :
    carried = (turrets.zipIdx index).flatMap fun (turret, i) =>
      turret.carries (fun target => (visit target).toOption.getD []) i := by
  have hv := provides_of_collectFrom h
  rw [collectFrom_of_visits (fun target => (visit target).toOption.getD [])] at h
  · exact (Except.ok.inj h).symm
  · intro turret ht target hr
    obtain ⟨hk, armaments, ha⟩ := hv turret ht target hr
    exact ⟨hk, by simp [ha, Except.toOption]⟩

theorem collectFrom_congr {visit' : Text → Except Failure (List Armament)}
    {carried : List Armament} (h : collectFrom visit table owner index turrets = .ok carried)
    (hv : ∀ turret ∈ turrets, ∀ target, turret.reference = some target → ∀ armaments,
      visit target = .ok armaments → visit' target = .ok armaments) :
    collectFrom visit' table owner index turrets = .ok carried := by
  rw [collectFrom_eq_carries h]
  apply collectFrom_of_visits
  intro turret ht target hr
  obtain ⟨hk, armaments, ha⟩ := provides_of_collectFrom h turret ht target hr
  exact ⟨hk, by simpa [ha, Except.toOption] using hv turret ht target hr armaments ha⟩

/-- The first turret that fails decides the failure. -/
theorem first_failure_of_collectFrom {failure : Failure}
    (h : collectFrom visit table owner index turrets = .error failure) :
    ∃ before turret after target, turrets = before ++ turret :: after ∧
      turret.reference = some target ∧ table.Provides visit before ∧
      (target ∉ table.keys ∧ failure = .unknownReference owner (index + before.length) target ∨
        target ∈ table.keys ∧ visit target = .error failure) := by
  induction turrets generalizing index with
  | nil => simp [collectFrom] at h
  | cons first turrets ih =>
    rcases collectFrom_cons_eq_error_iff.mp h with ⟨hf, hrest⟩ | ⟨target, hr, hd⟩
    · obtain ⟨before, turret, after, target, rfl, hr, hb, hd⟩ := ih hrest
      refine ⟨first :: before, turret, after, target, rfl, hr, provides_cons_iff.mpr ⟨hf, hb⟩, ?_⟩
      simpa [Nat.add_comm, Nat.add_left_comm] using hd
    · exact ⟨[], first, turrets, target, rfl, hr, by simp [Provides], hd⟩

end Turrets

variable {table : Table} {visiting : List Text} {key : Text}

theorem collect_of_mem (h : key ∈ visiting) :
    table.collect visiting key =
      .error (.referenceCycle (visiting.dropWhile (· ≠ key) ++ [key])) := by
  rw [collect, dif_pos (by simpa using h)]

theorem collect_of_unknown (h : key ∉ visiting) (hk : key ∉ table.keys) :
    table.collect visiting key = .error (.unknownKey key) := by
  have hn := Entries.get?_eq_none_iff.mpr hk
  rw [collect, dif_neg (by simpa using h)]
  split
  · rfl
  · rename_i ht
    simp [hn] at ht

theorem collect_of_get? {template : Template} (h : key ∉ visiting)
    (ht : table.get? key = some template) :
    table.collect visiting key =
      (collectFrom (table.collect (visiting ++ [key])) table key 0 template.turrets).map
        fun inherited => template.armaments ++ inherited := by
  rw [collect, dif_neg (by simpa using h)]
  split
  · rename_i hn
    simp [ht] at hn
  · rename_i found hf
    obtain rfl : found = template := by simpa [ht] using hf.symm
    rfl

end Table
end EntityTable
