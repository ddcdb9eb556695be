import EntityTable.Proofs.Inheritance.Acyclic

/-!
What a resolver has learnt does not show in its answers. Whatever was asked before, and whether it
was answered or refused, the next answer is that of a walk without a memory.
-/

namespace EntityTable

open Relation (ReflTransGen TransGen)

/-- Everything remembered is what collecting the template anew would give. -/
def Memo.Agrees (table : Table) (memo : Memo) : Prop :=
  ∀ key armaments, memo.get? key = some armaments → table.collect [] key = .ok armaments

theorem Memo.agrees_nil (table : Table) : Memo.Agrees table [] := by
  intro key armaments h
  simp [Entries.get?] at h

theorem Memo.Agrees.append {table : Table} {memo : Memo} {key : Text}
    {armaments : List Armament} (h : memo.Agrees table)
    (hc : table.collect [] key = .ok armaments) :
    Memo.Agrees table (memo ++ [(key, armaments)]) := by
  intro asked found hf
  rw [Entries.get?_append, Option.or_eq_some_iff] at hf
  rcases hf with hf | ⟨-, hf⟩
  · exact h asked found hf
  · by_cases hk : key = asked
    · obtain rfl : armaments = found := by simpa [Entries.get?, hk] using hf
      exact hk ▸ hc
    · simp [Entries.get?, hk] at hf

namespace Walk

variable {way : List Text}

/-- The rest of a loop whose earlier turrets carry `done` and have logged `told`. -/
def resumed (walk : Walk way) (told : List LogEvent) (done : List Armament) : Walk way :=
  ⟨walk.progress, told ++ walk.log, walk.outcome.map fun more => done ++ more⟩

section Turrets

variable {visit : Progress way → Text → Walk way} {table : Table} {owner target : Text}
  {turret : Turret} {turrets : List Turret} {index : Nat} {progress : Progress way}

theorem inherited_of_bare (hr : turret.reference = none) :
    inherited visit table owner index (turret :: turrets) progress =
      inherited visit table owner (index + 1) turrets progress := by
  rw [inherited, hr]

theorem inherited_of_absent (hr : turret.reference = some target)
    (hc : table.contains target = false) :
    inherited visit table owner index (turret :: turrets) progress =
      ⟨progress, [], .error (.unknownReference owner index target)⟩ := by
  simp [inherited, hr, hc]

theorem inherited_of_error (hr : turret.reference = some target)
    (hc : table.contains target = true) {failure : Failure}
    (ho : (visit progress target).outcome = .error failure) :
    inherited visit table owner index (turret :: turrets) progress = visit progress target := by
  simp [inherited, hr, hc, ho]

theorem inherited_of_ok (hr : turret.reference = some target)
    (hc : table.contains target = true) {armaments : List Armament}
    (ho : (visit progress target).outcome = .ok armaments) :
    inherited visit table owner index (turret :: turrets) progress =
      (inherited visit table owner (index + 1) turrets (visit progress target).progress).resumed
        (visit progress target).log (armaments.map (·.inherit index)) := by
  simp [inherited, hr, hc, ho, resumed]

end Turrets

theorem inherited_agrees {visit : Progress way → Text → Walk way} {table : Table} {owner : Text}
    {plain : Text → Except Failure (List Armament)} {turrets : List Turret} {index : Nat}
    {progress : Progress way}
    (hv : ∀ turret ∈ turrets, ∀ target, turret.reference = some target →
      ∀ progress : Progress way, progress.memo.Agrees table →
        (visit progress target).outcome = plain target ∧
          (visit progress target).progress.memo.Agrees table)
    (hm : progress.memo.Agrees table) :
    (inherited visit table owner index turrets progress).outcome =
        Table.collectFrom plain table owner index turrets ∧
      (inherited visit table owner index turrets progress).progress.memo.Agrees table := by
  induction turrets generalizing index progress with
  | nil => exact ⟨rfl, hm⟩
  | cons turret turrets ih =>
    have hrest (index : Nat) (progress : Progress way) (hm : progress.memo.Agrees table) :=
      @ih index progress (fun t ht => hv t (List.mem_cons_of_mem _ ht)) hm
    rw [Table.collectFrom]
    cases hr : turret.reference with
    | none =>
      rw [inherited_of_bare hr]
      exact hrest (index + 1) progress hm
    | some target =>
      obtain ⟨ho, ha⟩ := hv turret (List.mem_cons_self ..) target hr progress hm
      cases hc : table.contains target with
      | false =>
        rw [inherited_of_absent hr hc]
        exact ⟨by simp [hc], hm⟩
      | true =>
        simp only [hc, if_true, ← ho]
        cases hf : (visit progress target).outcome with
        | error failure =>
          rw [inherited_of_error hr hc hf]
          exact ⟨hf, ha⟩
        | ok armaments =>
          rw [inherited_of_ok hr hc hf]
          obtain ⟨hro, hra⟩ := hrest (index + 1) _ ha
          exact ⟨by simp [resumed, hro], hra⟩

variable {key : Text} (template : Template) (walk : Walk (way ++ [key]))

theorem complete_outcome : (walk.complete template).outcome =
    walk.outcome.map fun inherited => template.armaments ++ inherited := by
  unfold complete
  cases h : walk.outcome <;> simp [Except.map]

theorem complete_memo : (walk.complete template).progress.memo =
    match walk.outcome with
    | .error _ => walk.progress.memo
    | .ok inherited => walk.progress.memo ++ [(key, template.armaments ++ inherited)] := by
  unfold complete
  cases h : walk.outcome <;> rfl

end Walk

namespace Table

variable {table : Table} {way : List Text} {progress : Progress way} {key : Text}

theorem walk_of_memo {armaments : List Armament} (hf : progress.memo.get? key = some armaments) :
    table.walk progress key = ⟨progress, [], .ok armaments⟩ := by
  rw [walk, hf]

theorem walk_of_mem (hf : progress.memo.get? key = none) (hw : key ∈ way) :
    table.walk progress key =
      ⟨progress, [], .error (.referenceCycle (way.dropWhile (· ≠ key) ++ [key]))⟩ := by
  have hv : progress.visiting.contains key = true := by simpa [progress.visiting_eq] using hw
  rw [walk, hf]
  refine (dif_pos hv).trans ?_
  rw [progress.visiting_eq]

theorem walk_of_unknown (hf : progress.memo.get? key = none) (hw : key ∉ way)
    (hk : key ∉ table.keys) :
    table.walk progress key = ⟨progress, [], .error (.unknownKey key)⟩ := by
  have hv : ¬progress.visiting.contains key = true := by simpa [progress.visiting_eq] using hw
  have hn := Entries.get?_eq_none_iff.mpr hk
  rw [walk, hf]
  refine (dif_neg hv).trans ?_
  split
  · rfl
  · rename_i ht
    simp [hn] at ht

theorem walk_of_get? {template : Template} (hf : progress.memo.get? key = none) (hw : key ∉ way)
    (ht : table.get? key = some template) :
    table.walk progress key =
      (Walk.inherited table.walk table key 0 template.turrets (progress.enter key)).complete
        template := by
  have hv : ¬progress.visiting.contains key = true := by simpa [progress.visiting_eq] using hw
  rw [walk, hf]
  refine (dif_neg hv).trans ?_
  split
  · rename_i hn
    simp [ht] at hn
  · rename_i found hfound
    obtain rfl : found = template := by simpa [ht] using hfound.symm
    rfl

/-- `hw` says that the walk has come here along references: whatever is remembered was finished
without meeting the templates on the way, since they would have closed a cycle. -/
theorem walk_agrees {way : List Text} (progress : Progress way) (key : Text)
    (hm : progress.memo.Agrees table)
    (hw : ∀ passed ∈ way, TransGen table.References passed key) :
    (table.walk progress key).outcome = table.collect way key ∧
      (table.walk progress key).progress.memo.Agrees table := by
  induction way, progress, key using walk.induct table with
  | case1 way progress key armaments hf =>
    rw [walk_of_memo hf]
    exact ⟨(collect_of_on_the_way (hm key armaments hf) hw).symm, hm⟩
  | case2 way progress key hf hv =>
    have hmem : key ∈ way := by simpa [progress.visiting_eq] using hv
    rw [walk_of_mem hf hmem, collect_of_mem hmem]
    exact ⟨rfl, hm⟩
  | case3 way progress key hf hv hn =>
    have hmem : key ∉ way := by simpa [progress.visiting_eq] using hv
    have hk := Entries.get?_eq_none_iff.mp hn
    rw [walk_of_unknown hf hmem hk, collect_of_unknown hmem hk]
    exact ⟨rfl, hm⟩
  | case4 way progress key hf hv template ht ih =>
    have hmem : key ∉ way := by simpa [progress.visiting_eq] using hv
    have hvisit : ∀ turret ∈ template.turrets, ∀ target, turret.reference = some target →
        ∀ further : Progress (way ++ [key]), further.memo.Agrees table →
          (table.walk further target).outcome = table.collect (way ++ [key]) target ∧
            (table.walk further target).progress.memo.Agrees table := by
      intro turret hturret target hname further hm
      have hstep := (references_iff_of_get? ht).mpr ⟨turret, hturret, hname⟩
      apply ih further target hm
      intro passed hp
      rcases List.mem_append.mp hp with hp | hp
      · exact (hw passed hp).tail hstep
      · exact List.mem_singleton.mp hp ▸ .single hstep
    obtain ⟨ho, ha⟩ := @Walk.inherited_agrees _ _ table key _ _ 0 (progress.enter key) hvisit hm
    have same : (table.walk progress key).outcome = table.collect way key := by
      rw [walk_of_get? hf hmem ht, collect_of_get? hmem ht, Walk.complete_outcome, ho]
    refine ⟨same, ?_⟩
    rw [walk_of_get? hf hmem ht, Walk.complete_outcome] at same
    rw [walk_of_get? hf hmem ht, Walk.complete_memo]
    split
    -- a failure leaves behind what was finished on the way, all of it sound
    · exact ha
    · rename_i inherited hin
      rw [hin] at same
      exact ha.append (collect_nil same.symm)

end Table

namespace Resolver

/-- The resolver after a sequence of questions, answered or refused. -/
def after (r : Resolver) (calls : List Text) : Resolver :=
  calls.foldl (fun r call => (r.resolve call).1) r

/-- What holds between two questions: nothing is on the way, and the memory can be trusted. -/
structure Ready (table : Table) (r : Resolver) : Prop where
  table_eq : r.table = table
  visiting_nil : r.visiting = []
  memo_agrees : r.memo.Agrees table

variable {table : Table} {r : Resolver}

theorem ready_ofTable (table : Table) : Ready table (ofTable table) :=
  ⟨rfl, rfl, Memo.agrees_nil table⟩

theorem Ready.outcome (h : Ready table r) (key : Text) :
    (r.resolve key).2.outcome = table.collect [] key := by
  obtain ⟨table, memo, visiting⟩ := r
  obtain ⟨rfl, rfl, hm⟩ := h
  exact (Table.walk_agrees (⟨memo, [], rfl⟩ : Progress []) key hm (by simp)).1

theorem Ready.resolve (h : Ready table r) (key : Text) : Ready table (r.resolve key).1 := by
  obtain ⟨table, memo, visiting⟩ := r
  obtain ⟨rfl, rfl, hm⟩ := h
  have hw := (Table.walk_agrees (⟨memo, [], rfl⟩ : Progress []) key hm (by simp)).2
  exact ⟨rfl, (table.walk ⟨memo, [], rfl⟩ key).progress.visiting_eq, hw⟩

theorem Ready.after (h : Ready table r) (calls : List Text) : Ready table (r.after calls) := by
  induction calls generalizing r with
  | nil => exact h
  | cons call calls ih => exact ih (h.resolve call)

/-- Earlier questions do not show: the answer is that of a resolver which has never been asked,
and that of a walk which remembers nothing. -/
theorem resolve_outcome_after (table : Table) (calls : List Text) (key : Text) :
    (((ofTable table).after calls).resolve key).2.outcome =
        ((ofTable table).resolve key).2.outcome ∧
      (((ofTable table).after calls).resolve key).2.outcome = table.collect [] key ∧
      (key ∉ table.keys →
        (((ofTable table).after calls).resolve key).2.outcome = .error (.unknownKey key)) := by
  have hfresh := (ready_ofTable table).outcome key
  have hlater := ((ready_ofTable table).after calls).outcome key
  refine ⟨hlater.trans hfresh.symm, hlater, ?_⟩
  intro hk
  rw [hlater, Table.collect_of_unknown List.not_mem_nil hk]

end Resolver
end EntityTable
