import EntityTable.Proofs.Inheritance.Defects
import EntityTable.Proofs.Outcome

/-!
In which order a resolver completes templates. Each stands behind all that its turrets name, a
question only adds to the order, and what is completed is completed and logged once.
-/

namespace EntityTable

open Relation (ReflTransGen TransGen)

/-- The key of the template that is said to be resolved. -/
def LogEvent.resolvedKey? : LogEvent → Option Text
  | .resolved key _ _ => some key
  | _ => none

namespace Table

/-- Keys of templates in an order in which each comes after all that its turrets name. -/
inductive Completed (table : Table) : List Text → Prop
  | nil : Completed table []
  | snoc (done : List Text) (key : Text) (front : Completed table done) (known : key ∈ table.keys)
      (fresh : key ∉ done) (behind : ∀ target, table.References key target → target ∈ done) :
      Completed table (done ++ [key])

variable {table : Table} {done : List Text} {key : Text}

theorem Completed.nodup (h : table.Completed done) : done.Nodup := by
  induction h with
  | nil => exact List.nodup_nil
  | snoc done key front known fresh behind ih =>
    have hapart : done.Disjoint [key] := List.disjoint_singleton.mpr fresh
    exact ih.append (List.nodup_singleton key) hapart

theorem Completed.known (h : table.Completed done) (hk : key ∈ done) : key ∈ table.keys := by
  induction h with
  | nil => cases hk
  | snoc done last front known fresh behind ih =>
    rcases List.mem_append.mp hk with hk | hk
    · exact ih hk
    · rwa [List.mem_singleton.mp hk]

/-- All that the turrets of a completed template name was completed before it. -/
theorem Completed.behind (h : table.Completed done) {before after : List Text}
    (hsplit : done = before ++ key :: after) {target : Text} (hr : table.References key target) :
    target ∈ before := by
  induction h generalizing after with
  | nil => simp at hsplit
  | snoc done last front known fresh behind ih =>
    rcases List.eq_nil_or_concat' after with rfl | ⟨rest, other, rfl⟩
    · have hlast := List.append_inj' hsplit rfl
      have hkey : last = key := List.singleton_inj.mp hlast.2
      rw [← hlast.1]
      exact behind target (hkey ▸ hr)
    · have hassoc : before ++ key :: (rest ++ [other]) = (before ++ key :: rest) ++ [other] := by
        simp
      rw [hassoc] at hsplit
      exact ih (List.append_inj' hsplit rfl).1

theorem Completed.closed (h : table.Completed done) (hk : key ∈ done) {target : Text}
    (hr : table.References key target) : target ∈ done := by
  obtain ⟨before, after, hsplit⟩ := List.append_of_mem hk
  have hbefore := h.behind hsplit hr
  rw [hsplit]
  exact List.mem_append_left _ hbefore

theorem Completed.reached (h : table.Completed done) (hk : key ∈ done) {reached : Text}
    (hr : ReflTransGen table.References key reached) : reached ∈ done := by
  induction hr with
  | refl => exact hk
  | tail _ hstep ih => exact h.closed ih hstep

/-- By induction on the order: what the last template reaches besides itself is in front of it. -/
theorem Completed.not_cyclic (h : table.Completed done) (hk : key ∈ done) :
    ¬TransGen table.References key key := by
  induction h with
  | nil => cases hk
  | snoc done last front known fresh behind ih =>
    intro hcycle
    rcases List.mem_append.mp hk with hk | hk
    · exact ih hk hcycle
    · have hlast : key = last := List.mem_singleton.mp hk
      subst hlast
      obtain ⟨next, hstep, hback⟩ := TransGen.head'_iff.mp hcycle
      have hnext := behind next hstep
      exact fresh (front.reached hnext hback)

theorem Completed.not_reachesDefect (h : table.Completed done) (hk : key ∈ done) :
    ¬table.ReachesDefect key := by
  intro hdefect
  obtain ⟨reached, hreach, hbad⟩ := hdefect
  have hdone := h.reached hk hreach
  rcases hbad with ⟨target, hstep, habsent⟩ | hcycle
  · exact habsent (h.known (h.closed hdone hstep))
  · exact h.not_cyclic hdone hcycle

end Table

namespace Walk

variable {way : List Text}

/-- What a walk adds to the memory: further completed templates, none of them on its way, each
behind one of the roots and logged once. If it ends well, the roots are completed. -/
structure Adds (table : Table) (roots : Text → Prop) (before added : Memo) (walk : Walk way) :
    Prop where
  memo_eq : walk.progress.memo = before ++ added
  completed : table.Completed (Entries.keys (before ++ added))
  off_way : ∀ key ∈ added.keys, key ∉ way
  reached : ∀ key ∈ added.keys, ∃ root, roots root ∧ ReflTransGen table.References root key
  log_eq : walk.log.map LogEvent.resolvedKey? = added.keys.map some
  finished : ∀ armaments, walk.outcome = .ok armaments →
    ∀ root, roots root → root ∈ Entries.keys (before ++ added)

variable {table : Table} {roots : Text → Prop} {before added : Memo}

theorem keys_append (xs ys : Memo) : Entries.keys (xs ++ ys) = xs.keys ++ ys.keys :=
  List.map_append

theorem adds_nothing {progress : Progress way} {outcome : Except Failure (List Armament)}
    (hm : table.Completed progress.memo.keys)
    (hf : ∀ armaments, outcome = .ok armaments → ∀ root, roots root → root ∈ progress.memo.keys) :
    Adds table roots progress.memo [] (⟨progress, [], outcome⟩ : Walk way) := by
  have hnil : progress.memo ++ [] = progress.memo := List.append_nil _
  refine ⟨hnil.symm, ?_, ?_, ?_, rfl, ?_⟩
  · rwa [hnil]
  · intro key hk
    cases hk
  · intro key hk
    cases hk
  · intro armaments ho root hr
    rw [hnil]
    exact hf armaments ho root hr

/-- A walk that fails owes its roots nothing, so there may be more of them. -/
theorem Adds.of_error {roots' : Text → Prop} {walk : Walk way}
    (h : walk.Adds table roots before added) (hr : ∀ root, roots root → roots' root)
    {failure : Failure} (ho : walk.outcome = .error failure) :
    walk.Adds table roots' before added := by
  refine ⟨h.memo_eq, h.completed, h.off_way, ?_, h.log_eq, ?_⟩
  · intro key hk
    obtain ⟨root, hroot, hreach⟩ := h.reached key hk
    exact ⟨root, hr root hroot, hreach⟩
  · intro armaments hok
    rw [ho] at hok
    cases hok

/-- Two walks one after the other, the second with the memory of the first. -/
theorem Adds.followed {roots' : Text → Prop} {more : Memo} {first second : Walk way}
    (h : first.Adds table roots before added)
    (h' : second.Adds table roots' first.progress.memo more)
    {outcome : Except Failure (List Armament)}
    (ho : ∀ all, outcome = .ok all →
      (∃ armaments, first.outcome = .ok armaments) ∧ ∃ armaments, second.outcome = .ok armaments) :
    Adds table (fun root => roots root ∨ roots' root) before (added ++ more)
      (⟨second.progress, first.log ++ second.log, outcome⟩ : Walk way) := by
  have hmemo := h'.memo_eq
  have hcompleted := h'.completed
  have hfinished := h'.finished
  rw [h.memo_eq, List.append_assoc] at hmemo hcompleted hfinished
  have hkeys := keys_append added more
  refine ⟨hmemo, hcompleted, ?_, ?_, ?_, ?_⟩
  · intro key hk
    rcases List.mem_append.mp (hkeys ▸ hk) with hk | hk
    · exact h.off_way key hk
    · exact h'.off_way key hk
  · intro key hk
    rcases List.mem_append.mp (hkeys ▸ hk) with hk | hk
    · obtain ⟨root, hroot, hreach⟩ := h.reached key hk
      exact ⟨root, .inl hroot, hreach⟩
    · obtain ⟨root, hroot, hreach⟩ := h'.reached key hk
      exact ⟨root, .inr hroot, hreach⟩
  · rw [List.map_append, h.log_eq, h'.log_eq, hkeys, List.map_append]
  · intro all hok root hroot
    obtain ⟨⟨armaments, hfirst⟩, ⟨later, hsecond⟩⟩ := ho all hok
    rcases hroot with hroot | hroot
    · have hthere := h.finished armaments hfirst root hroot
      rw [← List.append_assoc, keys_append]
      exact List.mem_append_left _ hthere
    · exact hfinished later hsecond root hroot

/-- The keys that some of the turrets name. -/
def Named (turrets : List Turret) (target : Text) : Prop :=
  ∃ turret ∈ turrets, turret.reference = some target

theorem named_cons_iff {turret : Turret} {turrets : List Turret} {target : Text} :
    Named (turret :: turrets) target ↔ turret.reference = some target ∨ Named turrets target := by
  simp [Named]

/-- The turrets one after the other, by induction on them: the first one that fails ends the walk,
and what was completed up to there stays. -/
theorem adds_inherited {visit : Progress way → Text → Walk way} {owner : Text}
    {turrets : List Turret} {index : Nat} {progress : Progress way}
    (hv : ∀ target, Named turrets target → ∀ progress : Progress way,
      table.Completed progress.memo.keys →
        ∃ added, (visit progress target).Adds table (· = target) progress.memo added)
    (hm : table.Completed progress.memo.keys) :
    ∃ added, (inherited visit table owner index turrets progress).Adds table (Named turrets)
      progress.memo added := by
  induction turrets generalizing index progress with
  | nil =>
    refine ⟨[], adds_nothing hm ?_⟩
    intro armaments _ root hr
    simp [Named] at hr
  | cons turret turrets ih =>
    have hrest (index : Nat) (progress : Progress way) (hm : table.Completed progress.memo.keys) :=
      @ih index progress (fun target ht => hv target (named_cons_iff.mpr (.inr ht))) hm
    cases hr : turret.reference with
    | none =>
      have hsame : Named (turret :: turrets) = Named turrets := by
        funext root
        simp [Named, hr]
      rw [inherited_of_bare hr, hsame]
      exact hrest (index + 1) progress hm
    | some target =>
      have hroots (root : Text) : Named (turret :: turrets) root ↔
          root = target ∨ Named turrets root := by
        rw [named_cons_iff, hr, Option.some.injEq, eq_comm]
      cases hc : table.contains target with
      | false =>
        rw [inherited_of_absent hr hc]
        refine ⟨[], adds_nothing hm ?_⟩
        intro armaments hok
        cases hok
      | true =>
        obtain ⟨first, hfirst⟩ := hv target ((hroots target).mpr (.inl rfl)) progress hm
        cases ho : (visit progress target).outcome with
        | error failure =>
          rw [inherited_of_error hr hc ho]
          exact ⟨first, hfirst.of_error (fun root h => (hroots root).mpr (.inl h)) ho⟩
        | ok armaments =>
          have hm' : table.Completed (visit progress target).progress.memo.keys := by
            rw [hfirst.memo_eq]
            exact hfirst.completed
          obtain ⟨more, hmore⟩ := hrest (index + 1) (visit progress target).progress hm'
          rw [inherited_of_ok hr hc ho, show Named (turret :: turrets) =
            fun root => root = target ∨ Named turrets root from
              funext fun root => propext (hroots root)]
          refine ⟨first ++ more, hfirst.followed hmore ?_⟩
          intro all hok
          obtain ⟨rest, hrest, -⟩ := map_eq_ok_iff.mp hok
          exact ⟨⟨armaments, ho⟩, ⟨rest, hrest⟩⟩

section Complete

variable {key : Text} {template : Template} {walk : Walk (way ++ [key])}

/-- What is completed behind the turrets of a template is completed behind the template. -/
theorem Adds.behind (h : walk.Adds table (Named template.turrets) before added)
    (ht : table.get? key = some template) {other : Text} (hk : other ∈ added.keys) :
    other ∉ way ∧ other ≠ key ∧ ReflTransGen table.References key other := by
  obtain ⟨root, hr, hreach⟩ := h.reached other hk
  have hboth : other ∉ way ∧ other ≠ key := by
    simpa using h.off_way other hk
  exact ⟨hboth.1, hboth.2, .head ((Table.references_iff_of_get? ht).mpr hr) hreach⟩

theorem Adds.refused (h : walk.Adds table (Named template.turrets) before added)
    (ht : table.get? key = some template) {failure : Failure}
    (ho : walk.outcome = .error failure) :
    (walk.complete template).Adds table (· = key) before added := by
  rw [show walk.complete template = ⟨walk.progress.leave, walk.log, .error failure⟩ by
    rw [complete, ho]]
  refine ⟨h.memo_eq, h.completed, ?_, ?_, h.log_eq, ?_⟩
  · intro other hk
    exact (h.behind ht hk).1
  · intro other hk
    exact ⟨key, rfl, (h.behind ht hk).2.2⟩
  · intro armaments hok
    cases hok

/-- The template stands behind its turrets, which are completed, and is completed last. -/
theorem Adds.remembered (h : walk.Adds table (Named template.turrets) before added)
    (ht : table.get? key = some template) (hb : key ∉ before.keys) (hw : key ∉ way)
    {inherited : List Armament} (ho : walk.outcome = .ok inherited) :
    (walk.complete template).Adds table (· = key) before
      (added ++ [(key, template.armaments ++ inherited)]) := by
  let full := template.armaments ++ inherited
  have hcomplete : walk.complete template = ⟨walk.progress.leave.remember key full,
      walk.log ++ [.resolved key full.length inherited.length], .ok full⟩ := by
    rw [complete, ho]
  have hmore : Entries.keys (added ++ [(key, full)]) = added.keys ++ [key] :=
    keys_append added [(key, full)]
  have hkeys : Entries.keys (before ++ (added ++ [(key, full)])) =
      Entries.keys (before ++ added) ++ [key] := by
    rw [← List.append_assoc, keys_append (before ++ added)]
    rfl
  have hfresh : key ∉ Entries.keys (before ++ added) := by
    intro hk
    rcases List.mem_append.mp (keys_append before added ▸ hk) with hk | hk
    · exact hb hk
    · exact (h.behind ht hk).2.1 rfl
  rw [hcomplete]
  refine ⟨?_, ?_, ?_, ?_, ?_, ?_⟩
  · show walk.progress.memo ++ [(key, full)] = _
    rw [h.memo_eq, List.append_assoc]
  · rw [hkeys]
    refine .snoc _ key h.completed (Entries.mem_keys_of_get? ht) hfresh ?_
    intro target hr
    exact h.finished inherited ho target ((Table.references_iff_of_get? ht).mp hr)
  · intro other hk
    rcases List.mem_append.mp (hmore ▸ hk) with hk | hk
    · exact (h.behind ht hk).1
    · rwa [List.mem_singleton.mp hk]
  · intro other hk
    rcases List.mem_append.mp (hmore ▸ hk) with hk | hk
    · exact ⟨key, rfl, (h.behind ht hk).2.2⟩
    · exact ⟨key, rfl, List.mem_singleton.mp hk ▸ .refl⟩
  · rw [List.map_append, h.log_eq, hmore, List.map_append]
    rfl
  · intro armaments hok root hr
    rw [hkeys, hr]
    exact List.mem_append_right _ (List.mem_singleton_self key)

/-- What is behind a template is done; if it went well, the template is completed next. -/
theorem adds_complete (ht : table.get? key = some template) (hb : key ∉ before.keys)
    (hw : key ∉ way) (h : walk.Adds table (Named template.turrets) before added) :
    ∃ more, (walk.complete template).Adds table (· = key) before more ∧
      ∀ armaments, (walk.complete template).outcome = .ok armaments →
        more.keys.getLast? = some key := by
  cases ho : walk.outcome with
  | error failure =>
    refine ⟨added, h.refused ht ho, ?_⟩
    intro armaments hok
    rw [complete, ho] at hok
    cases hok
  | ok inherited =>
    refine ⟨_, h.remembered ht hb hw ho, ?_⟩
    intro armaments _
    rw [keys_append]
    exact List.getLast?_concat

end Complete

end Walk

namespace Table

variable {table : Table}

/-- The way may be any: completed templates are never on it, and a template on it is completed
only when it is left. -/
theorem adds_walk {way : List Text} (progress : Progress way) (key : Text)
    (hm : table.Completed progress.memo.keys) :
    ∃ added, (table.walk progress key).Adds table (· = key) progress.memo added ∧
      ∀ armaments, (table.walk progress key).outcome = .ok armaments →
        key ∈ progress.memo.keys ∧ added = [] ∨
          key ∉ progress.memo.keys ∧ added.keys.getLast? = some key := by
  induction way, progress, key using walk.induct table with
  | case1 way progress key armaments hf =>
    have hk : key ∈ progress.memo.keys := Entries.mem_keys_of_get? hf
    rw [walk_of_memo hf]
    refine ⟨[], Walk.adds_nothing hm ?_, fun _ _ => .inl ⟨hk, rfl⟩⟩
    intro _ _ root hr
    rwa [hr]
  | case2 way progress key hf hv =>
    have hmem : key ∈ way := by simpa [progress.visiting_eq] using hv
    rw [walk_of_mem hf hmem]
    refine ⟨[], Walk.adds_nothing hm ?_, ?_⟩
    all_goals
      intro armaments hok
      cases hok
  | case3 way progress key hf hv hn =>
    have hmem : key ∉ way := by simpa [progress.visiting_eq] using hv
    rw [walk_of_unknown hf hmem (Entries.get?_eq_none_iff.mp hn)]
    refine ⟨[], Walk.adds_nothing hm ?_, ?_⟩
    all_goals
      intro armaments hok
      cases hok
  | case4 way progress key hf hv template ht ih =>
    have hmem : key ∉ way := by simpa [progress.visiting_eq] using hv
    have hfresh : key ∉ progress.memo.keys := Entries.get?_eq_none_iff.mp hf
    have hvisit : ∀ target, Walk.Named template.turrets target →
        ∀ further : Progress (way ++ [key]), table.Completed further.memo.keys →
          ∃ added, (table.walk further target).Adds table (· = target) further.memo added := by
      intro target _ further hm
      obtain ⟨added, hadds, -⟩ := ih further target hm
      exact ⟨added, hadds⟩
    obtain ⟨added, hadds⟩ : ∃ added, (Walk.inherited table.walk table key 0
        template.turrets (progress.enter key)).Adds table (Walk.Named template.turrets)
          (progress.enter key).memo added :=
      Walk.adds_inherited hvisit hm
    rw [walk_of_get? hf hmem ht]
    obtain ⟨more, hmore, hlast⟩ := Walk.adds_complete ht hfresh hmem hadds
    exact ⟨more, hmore, fun armaments hok => .inr ⟨hfresh, hlast armaments hok⟩⟩

end Table

namespace Resolver

/-- All that a resolver logs over a sequence of questions. -/
def logOf (r : Resolver) : List Text → List LogEvent
  | [] => []
  | call :: calls => (r.resolve call).2.log ++ (r.resolve call).1.logOf calls

/-- What holds between two questions: nothing is on the way, and what is finished is known, sound
and behind all that its turrets name. -/
structure InOrder (table : Table) (r : Resolver) : Prop where
  visiting_nil : r.visiting = []
  nodup : r.memo.keys.Nodup
  known : ∀ key ∈ r.memo.keys, key ∈ table.keys
  sound : ∀ key ∈ r.memo.keys, ¬table.ReachesDefect key
  behind : ∀ before key after, r.memo.keys = before ++ key :: after →
    ∀ target, table.References key target → target ∈ before

/-- What a question adds: nothing that was finished changes, and an answer finishes what the key
reaches, itself last. -/
structure Extends (table : Table) (r : Resolver) (key : Text) (added : Memo) : Prop where
  memo_eq : (r.resolve key).1.memo = r.memo ++ added
  log_eq : (r.resolve key).2.log.map LogEvent.resolvedKey? = added.keys.map some
  answered : ∀ armaments, (r.resolve key).2.outcome = .ok armaments →
    (∀ other, other ∈ added.keys ↔
      ReflTransGen table.References key other ∧ other ∉ r.memo.keys) ∧
    (key ∉ r.memo.keys → added.keys.getLast? = some key)

variable {table : Table} {r : Resolver}

theorem inOrder_of_completed (hv : r.visiting = []) (h : table.Completed r.memo.keys) :
    InOrder table r := by
  refine ⟨hv, h.nodup, ?_, ?_, ?_⟩
  · intro key hk
    exact h.known hk
  · intro key hk
    exact h.not_reachesDefect hk
  · intro before key after hsplit target hr
    exact h.behind hsplit hr

/-- One question, answered or refused. -/
theorem extends_resolve (hr : r.table = table) (hv : r.visiting = [])
    (h : table.Completed r.memo.keys) (key : Text) :
    ∃ added, r.Extends table key added ∧ (r.resolve key).1.visiting = [] ∧
      table.Completed (r.resolve key).1.memo.keys := by
  obtain ⟨table, memo, visiting⟩ := r
  subst hr hv
  let progress : Progress [] := ⟨memo, [], rfl⟩
  obtain ⟨added, hadds, hanswer⟩ := Table.adds_walk progress key h
  have hcompleted : table.Completed (table.walk progress key).progress.memo.keys := by
    rw [hadds.memo_eq]
    exact hadds.completed
  refine ⟨added, ⟨hadds.memo_eq, hadds.log_eq, ?_⟩, (table.walk progress key).progress.visiting_eq,
    hcompleted⟩
  intro armaments hok
  have hkeys := Walk.keys_append memo added
  have hkey := hadds.finished armaments hok key rfl
  constructor
  · intro other
    constructor
    · intro ho
      obtain ⟨root, rfl, hreach⟩ := hadds.reached other ho
      have hnodup := hadds.completed.nodup
      rw [hkeys] at hnodup
      exact ⟨hreach, fun hm => (List.disjoint_of_nodup_append hnodup) hm ho⟩
    · intro ho
      have hthere := hadds.completed.reached hkey ho.1
      rw [hkeys] at hthere
      exact (List.mem_append.mp hthere).resolve_left ho.2
  · intro hfresh
    rcases hanswer armaments hok with ⟨hthere, -⟩ | ⟨-, hlast⟩
    · exact absurd hthere hfresh
    · exact hlast

/-- A whole life, by induction on the questions. -/
theorem completed_after (hr : r.table = table) (hv : r.visiting = [])
    (h : table.Completed r.memo.keys) (calls : List Text) :
    (r.after calls).table = table ∧ (r.after calls).visiting = [] ∧
      table.Completed (r.after calls).memo.keys ∧
      r.memo.keys.map some ++ (r.logOf calls).map LogEvent.resolvedKey? =
        (r.after calls).memo.keys.map some := by
  induction calls generalizing r with
  | nil => exact ⟨hr, hv, h, List.append_nil _⟩
  | cons call calls ih =>
    obtain ⟨added, hextends, hvisiting, hcompleted⟩ := extends_resolve hr hv h call
    have htable : (r.resolve call).1.table = table := hr
    obtain ⟨htable', hvisiting', hcompleted', hlog⟩ := ih htable hvisiting hcompleted
    refine ⟨htable', hvisiting', hcompleted', ?_⟩
    have hkeys : (r.resolve call).1.memo.keys = r.memo.keys ++ added.keys := by
      rw [hextends.memo_eq]
      exact Walk.keys_append r.memo added
    rw [hkeys, List.map_append] at hlog
    rw [logOf, List.map_append, hextends.log_eq, ← List.append_assoc]
    exact hlog

/-- Whatever is asked, and whether it is answered or refused: templates are finished in the order
of their references, each of them once, and the log tells the order. -/
theorem finishes_in_order (table : Table) (calls : List Text) :
    InOrder table ((ofTable table).after calls) ∧
      ((ofTable table).logOf calls).map LogEvent.resolvedKey? =
        ((ofTable table).after calls).memo.keys.map some ∧
      ∀ key, ∃ added, ((ofTable table).after calls).Extends table key added := by
  have hnew : table.Completed (ofTable table).memo.keys := .nil
  obtain ⟨htable, hvisiting, hcompleted, hlog⟩ :=
    completed_after (r := ofTable table) rfl rfl hnew calls
  refine ⟨inOrder_of_completed hvisiting hcompleted, hlog, ?_⟩
  intro key
  obtain ⟨added, hextends, -, -⟩ := extends_resolve htable hvisiting hcompleted key
  exact ⟨added, hextends⟩

end Resolver
end EntityTable
