import EntityTable.Proofs.Inheritance.History

/-!
The walk in single steps, with its calls on a stack. The steps from a call lead to the moment at
which it is over, and then memory, way, log and outcome are those of the walk.
-/

namespace EntityTable

/-- A template on its way, whose turrets before `position` have been seen to. -/
structure Visit where
  key : Text
  template : Template
  position : Nat
  ahead : List Turret
  inherited : List Armament

/-- What the innermost call is about. A template that is finishing has been left and is not yet
remembered; a call that has answered or raised is over. -/
inductive Activity
  | asking (key : Text)
  | scanning (visit : Visit)
  | finishing (visit : Visit)
  | answering (armaments : List Armament)
  | raising (failure : Failure)

def Activity.ofOutcome : Except Failure (List Armament) → Activity
  | .ok armaments => .answering armaments
  | .error failure => .raising failure

/-- A resolver in the middle of a question. Of the calls that wait for another one, the innermost
comes first, and the turret it waits for is no longer ahead of it. -/
structure Moment where
  memo : Memo
  visiting : List Text
  log : List LogEvent
  waiting : List Visit
  activity : Activity

namespace Visit

def start (key : Text) (template : Template) : Visit := ⟨key, template, 0, template.turrets, []⟩

/-- Past the turret at the position, which names no template; `ahead` are those behind it. -/
def skip (visit : Visit) (ahead : List Turret) : Visit :=
  { visit with position := visit.position + 1, ahead }

/-- The turret at the position carries what its template has. -/
def take (visit : Visit) (armaments : List Armament) : Visit :=
  { visit with
    position := visit.position + 1
    inherited := visit.inherited ++ armaments.map (·.inherit visit.position) }

def armaments (visit : Visit) : List Armament := visit.template.armaments ++ visit.inherited

end Visit

namespace Moment

/-- The call looks for its template in the memory, on the way and in the table. -/
def ask (table : Table) (m : Moment) (key : Text) : Moment :=
  match m.memo.get? key with
  | some armaments => { m with activity := .answering armaments }
  | none =>
    if m.visiting.contains key then
      { m with
        activity := .raising (.referenceCycle (m.visiting.dropWhile (· ≠ key) ++ [key])) }
    else
      match table.get? key with
      | none => { m with activity := .raising (.unknownKey key) }
      | some template =>
        { m with visiting := m.visiting ++ [key], activity := .scanning (.start key template) }

def scan (table : Table) (m : Moment) (visit : Visit) : Moment :=
  match visit.ahead with
  | [] => { m with visiting := m.visiting.dropLast, activity := .finishing visit }
  | turret :: ahead =>
    match turret.reference with
    | none => { m with activity := .scanning (visit.skip ahead) }
    | some target =>
      { m with
        waiting := { visit with ahead } :: m.waiting
        activity :=
          if table.contains target then .asking target
          else .raising (.unknownReference visit.key visit.position target) }

def remember (m : Moment) (visit : Visit) : Moment :=
  { m with
    memo := m.memo ++ [(visit.key, visit.armaments)]
    log := m.log ++ [.resolved visit.key visit.armaments.length visit.inherited.length]
    activity := .answering visit.armaments }

end Moment

namespace Table

/-- One step of the innermost call; there is none once the question is answered or refused. A
failure takes every waiting template off the way. -/
def step (table : Table) (m : Moment) : Option Moment :=
  match m.activity, m.waiting with
  | .asking key, _ => some (m.ask table key)
  | .scanning visit, _ => some (m.scan table visit)
  | .finishing visit, _ => some (m.remember visit)
  | .answering _, [] | .raising _, [] => none
  | .answering armaments, visit :: waiting =>
    some { m with waiting, activity := .scanning (visit.take armaments) }
  | .raising failure, _ :: waiting =>
    some { m with visiting := m.visiting.dropLast, waiting, activity := .raising failure }

/-- The moment `n` steps later, if the question is not over before. -/
def run (table : Table) : Nat → Moment → Option Moment
  | 0, m => some m
  | n + 1, m => (table.step m).bind (table.run n)

/-- All that a step can be. -/
inductive Follows (table : Table) (m : Moment) : Moment → Prop
  | hit (key : Text) (armaments : List Armament) (asks : m.activity = .asking key)
      (found : m.memo.get? key = some armaments) :
      Follows table m { m with activity := .answering armaments }
  | meet (key : Text) (asks : m.activity = .asking key) (fresh : m.memo.get? key = none)
      (again : key ∈ m.visiting) :
      Follows table m { m with
        activity := .raising (.referenceCycle (m.visiting.dropWhile (· ≠ key) ++ [key])) }
  | miss (key : Text) (asks : m.activity = .asking key) (fresh : m.memo.get? key = none)
      (off : key ∉ m.visiting) (absent : table.get? key = none) :
      Follows table m { m with activity := .raising (.unknownKey key) }
  | enter (key : Text) (template : Template) (asks : m.activity = .asking key)
      (fresh : m.memo.get? key = none) (off : key ∉ m.visiting)
      (known : table.get? key = some template) :
      Follows table m { m with
        visiting := m.visiting ++ [key], activity := .scanning (.start key template) }
  | leave (visit : Visit) (scans : m.activity = .scanning visit) (through : visit.ahead = []) :
      Follows table m { m with visiting := m.visiting.dropLast, activity := .finishing visit }
  | skip (visit : Visit) (turret : Turret) (ahead : List Turret)
      (scans : m.activity = .scanning visit) (next : visit.ahead = turret :: ahead)
      (bare : turret.reference = none) :
      Follows table m { m with activity := .scanning (visit.skip ahead) }
  | call (visit : Visit) (turret : Turret) (ahead : List Turret) (target : Text)
      (scans : m.activity = .scanning visit) (next : visit.ahead = turret :: ahead)
      (named : turret.reference = some target) (known : table.contains target = true) :
      Follows table m { m with
        waiting := { visit with ahead } :: m.waiting, activity := .asking target }
  | refuse (visit : Visit) (turret : Turret) (ahead : List Turret) (target : Text)
      (scans : m.activity = .scanning visit) (next : visit.ahead = turret :: ahead)
      (named : turret.reference = some target) (absent : table.contains target = false) :
      Follows table m { m with
        waiting := { visit with ahead } :: m.waiting
        activity := .raising (.unknownReference visit.key visit.position target) }
  | remember (visit : Visit) (finishes : m.activity = .finishing visit) :
      Follows table m (m.remember visit)
  | resume (visit : Visit) (waiting : List Visit) (armaments : List Armament)
      (answers : m.activity = .answering armaments) (waits : m.waiting = visit :: waiting) :
      Follows table m { m with waiting, activity := .scanning (visit.take armaments) }
  | unwind (visit : Visit) (waiting : List Visit) (failure : Failure)
      (raises : m.activity = .raising failure) (waits : m.waiting = visit :: waiting) :
      Follows table m { m with
        visiting := m.visiting.dropLast, waiting, activity := .raising failure }

variable {table : Table} {m m' m'' : Moment}

theorem step_of_follows (h : table.Follows m m') : table.step m = some m' := by
  cases h with
  | hit key armaments asks found => simp [step, Moment.ask, asks, found]
  | meet key asks fresh again => simp [step, Moment.ask, asks, fresh, again]
  | miss key asks fresh off absent => simp [step, Moment.ask, asks, fresh, off, absent]
  | enter key template asks fresh off known => simp [step, Moment.ask, asks, fresh, off, known]
  | leave visit scans through => simp [step, Moment.scan, scans, through]
  | skip visit turret ahead scans next bare => simp [step, Moment.scan, scans, next, bare]
  | call visit turret ahead target scans next named known =>
    simp [step, Moment.scan, scans, next, named, known]
  | refuse visit turret ahead target scans next named absent =>
    simp [step, Moment.scan, scans, next, named, absent]
  | remember visit finishes => simp [step, finishes]
  | resume visit waiting armaments answers waits => simp [step, answers, waits]
  | unwind visit waiting failure raises waits => simp [step, raises, waits]

theorem follows_ask {key : Text} (asks : m.activity = .asking key) :
    table.Follows m (m.ask table key) := by
  unfold Moment.ask
  cases hf : m.memo.get? key with
  | some armaments => exact .hit key armaments asks hf
  | none =>
    by_cases hv : key ∈ m.visiting
    · simpa [hv] using Follows.meet key asks hf hv
    · cases ht : table.get? key with
      | none => simpa [hv] using Follows.miss key asks hf hv ht
      | some template => simpa [hv] using Follows.enter key template asks hf hv ht

theorem follows_scan {visit : Visit} (scans : m.activity = .scanning visit) :
    table.Follows m (m.scan table visit) := by
  unfold Moment.scan
  cases hn : visit.ahead with
  | nil => exact .leave visit scans hn
  | cons turret ahead =>
    cases hr : turret.reference with
    | none => simpa [hr] using Follows.skip visit turret ahead scans hn hr
    | some target =>
      cases hc : table.contains target with
      | true => simpa [hr, hc] using Follows.call visit turret ahead target scans hn hr hc
      | false => simpa [hr, hc] using Follows.refuse visit turret ahead target scans hn hr hc

theorem step_eq_some_iff : table.step m = some m' ↔ table.Follows m m' := by
  refine ⟨?_, step_of_follows⟩
  intro h
  unfold step at h
  split at h
  · rename_i key asks
    exact Option.some.inj h ▸ follows_ask asks
  · rename_i visit scans
    exact Option.some.inj h ▸ follows_scan scans
  · rename_i visit finishes
    exact Option.some.inj h ▸ .remember visit finishes
  · cases h
  · cases h
  · rename_i armaments visit waiting answers waits
    exact Option.some.inj h ▸ .resume visit waiting armaments answers waits
  · rename_i failure visit waiting raises waits
    exact Option.some.inj h ▸ .unwind visit waiting failure raises waits

theorem run_add (n k : Nat) (m : Moment) :
    table.run (n + k) m = (table.run n m).bind (table.run k) := by
  induction n generalizing m with
  | zero => simp [run]
  | succ n ih =>
    rw [Nat.succ_add, run, run, Option.bind_assoc]
    exact Option.bind_congr fun next _ => ih next

/-- Steps lead from one moment to the other. -/
def Becomes (table : Table) (m m' : Moment) : Prop := ∃ n, table.run n m = some m'

theorem Becomes.refl (m : Moment) : table.Becomes m m := ⟨0, rfl⟩

theorem Becomes.trans (h : table.Becomes m m') (h' : table.Becomes m' m'') :
    table.Becomes m m'' := by
  obtain ⟨n, hn⟩ := h
  obtain ⟨k, hk⟩ := h'
  refine ⟨n + k, ?_⟩
  rw [run_add, hn, Option.bind_some, hk]

theorem Follows.becomes (h : table.Follows m m') (h' : table.Becomes m' m'') :
    table.Becomes m m'' := by
  obtain ⟨n, hn⟩ := h'
  refine ⟨n + 1, ?_⟩
  rw [run, step_of_follows h, Option.bind_some, hn]

end Table

section Walks

variable {way : List Text}

/-- A walk begins as a call, behind the log so far. -/
def Progress.asked (progress : Progress way) (log : List LogEvent) (waiting : List Visit)
    (key : Text) : Moment :=
  ⟨progress.memo, progress.visiting, log, waiting, .asking key⟩

namespace Walk

/-- The moment at which the call of the walk is over. -/
def ended (walk : Walk way) (log : List LogEvent) (waiting : List Visit) : Moment :=
  ⟨walk.progress.memo, walk.progress.visiting, log ++ walk.log, waiting, .ofOutcome walk.outcome⟩

theorem resumed_nil (walk : Walk way) : walk.resumed [] [] = walk := by
  obtain ⟨progress, log, outcome⟩ := walk
  cases outcome <;> rfl

theorem resumed_resumed (walk : Walk way) (told more : List LogEvent)
    (done carried : List Armament) :
    (walk.resumed more carried).resumed told done =
      walk.resumed (told ++ more) (done ++ carried) := by
  obtain ⟨progress, log, outcome⟩ := walk
  cases outcome <;> simp [resumed, Except.map]

/-- What was logged before the rest of the loop may as well have been logged before the call. -/
theorem ended_complete_resumed {key : Text} (walk : Walk (way ++ [key])) (template : Template)
    (log told : List LogEvent) (done : List Armament) (waiting : List Visit) :
    ((walk.resumed told done).complete template).ended log waiting =
      ((walk.resumed [] done).complete template).ended (log ++ told) waiting := by
  obtain ⟨progress, walkLog, outcome⟩ := walk
  cases outcome <;> simp [resumed, complete, ended, Except.map]

theorem ended_complete_of_error {key : Text} {walk : Walk (way ++ [key])} {failure : Failure}
    (ho : walk.outcome = .error failure) (template : Template) (log : List LogEvent)
    (done : List Armament) (waiting : List Visit) :
    ((walk.resumed [] done).complete template).ended log waiting =
      ⟨walk.progress.memo, walk.progress.visiting.dropLast, log ++ walk.log, waiting,
        .raising failure⟩ := by
  obtain ⟨progress, walkLog, outcome⟩ := walk
  subst ho
  rfl

/-- The loop over the turrets, by induction on them: its steps end the call as the walk does. -/
theorem becomes_inherited {table : Table} {key : Text} {template : Template}
    {visit : Progress (way ++ [key]) → Text → Walk (way ++ [key])}
    (hv : ∀ (progress : Progress (way ++ [key])) target log waiting,
      table.Becomes (progress.asked log waiting target)
        ((visit progress target).ended log waiting))
    (turrets : List Turret) (index : Nat) (done : List Armament)
    (progress : Progress (way ++ [key])) (log : List LogEvent) (waiting : List Visit) :
    table.Becomes
      ⟨progress.memo, progress.visiting, log, waiting,
        .scanning ⟨key, template, index, turrets, done⟩⟩
      ((((inherited visit table key index turrets progress).resumed [] done).complete
        template).ended log waiting) := by
  induction turrets generalizing index done progress log with
  | nil =>
    have hend : (((inherited visit table key index [] progress).resumed [] done).complete
        template).ended log waiting =
          Moment.remember ⟨progress.memo, progress.visiting.dropLast, log, waiting,
            .finishing ⟨key, template, index, [], done⟩⟩ ⟨key, template, index, [], done⟩ := by
      simp [inherited, resumed, complete, ended, Moment.remember, Visit.armaments, Except.map,
        Progress.leave, Progress.remember, Activity.ofOutcome]
    rw [hend]
    exact (Table.Follows.leave _ rfl rfl).becomes ((Table.Follows.remember _ rfl).becomes (.refl _))
  | cons turret turrets ih =>
    cases hr : turret.reference with
    | none =>
      rw [inherited_of_bare hr]
      refine (Table.Follows.skip _ turret turrets rfl rfl hr).becomes ?_
      exact ih (index + 1) done progress log
    | some target =>
      cases hc : table.contains target with
      | false =>
        rw [inherited_of_absent hr hc, ended_complete_of_error rfl, List.append_nil]
        refine (Table.Follows.refuse _ turret turrets target rfl rfl hr hc).becomes ?_
        exact (Table.Follows.unwind _ _ _ rfl rfl).becomes (.refl _)
      | true =>
        refine (Table.Follows.call _ turret turrets target rfl rfl hr hc).becomes ?_
        refine (hv progress target log _).trans ?_
        cases ho : (visit progress target).outcome with
        | error failure =>
          rw [inherited_of_error hr hc ho, ended_complete_of_error ho]
          -- the failure goes on through this call, which leaves its template all the same
          have hraises := congrArg Activity.ofOutcome ho
          exact (Table.Follows.unwind _ _ _ hraises rfl).becomes (.refl _)
        | ok armaments =>
          -- what the turret carries and what was logged for it now stand behind what was there
          rw [inherited_of_ok hr hc ho, resumed_resumed, ended_complete_resumed]
          have hanswers := congrArg Activity.ofOutcome ho
          refine (Table.Follows.resume _ _ _ hanswers rfl).becomes ?_
          exact ih (index + 1) _ (visit progress target).progress _

end Walk

/-- By induction on the walk, whatever the calls are that wait for it. -/
theorem Table.becomes_walk (table : Table) (progress : Progress way) (key : Text)
    (log : List LogEvent) (waiting : List Visit) :
    table.Becomes (progress.asked log waiting key)
      ((table.walk progress key).ended log waiting) := by
  induction way, progress, key using walk.induct table generalizing log waiting with
  | case1 way progress key armaments hf =>
    rw [walk_of_memo hf, Walk.ended, List.append_nil]
    exact (Follows.hit key armaments rfl hf).becomes (.refl _)
  | case2 way progress key hf hv =>
    obtain ⟨memo, visiting, rfl⟩ := progress
    have hmem : key ∈ visiting := by simpa using hv
    rw [walk_of_mem hf hmem, Walk.ended, List.append_nil]
    exact (Follows.meet key rfl hf hmem).becomes (.refl _)
  | case3 way progress key hf hv hn =>
    obtain ⟨memo, visiting, rfl⟩ := progress
    have hmem : key ∉ visiting := by simpa using hv
    rw [walk_of_unknown hf hmem (Entries.get?_eq_none_iff.mp hn), Walk.ended, List.append_nil]
    exact (Follows.miss key rfl hf hmem hn).becomes (.refl _)
  | case4 way progress key hf hv template ht ih =>
    obtain ⟨memo, visiting, rfl⟩ := progress
    have hmem : key ∉ visiting := by simpa using hv
    let entered := Progress.enter ⟨memo, visiting, rfl⟩ key
    refine (Follows.enter key template rfl hf hmem ht).becomes ?_
    rw [walk_of_get? hf hmem ht, ← Walk.resumed_nil (Walk.inherited ..)]
    exact Walk.becomes_inherited ih template.turrets 0 [] entered log waiting

end Walks

namespace Resolver

/-- The moment at which a question is put. -/
def asked (r : Resolver) (key : Text) : Moment := ⟨r.memo, r.visiting, [], [], .asking key⟩

/-- The moment at which a question is answered or refused. -/
def answered (r : Resolver) (key : Text) : Moment :=
  ⟨(r.resolve key).1.memo, (r.resolve key).1.visiting, (r.resolve key).2.log, [],
    .ofOutcome (r.resolve key).2.outcome⟩

variable (r : Resolver) (key : Text)

theorem becomes_answered : r.table.Becomes (r.asked key) (r.answered key) :=
  r.table.becomes_walk ⟨r.memo, r.visiting, rfl⟩ key [] []

theorem step_answered (table : Table) : table.step (r.answered key) = none := by
  unfold answered
  cases (r.resolve key).2.outcome <;> rfl

end Resolver
end EntityTable
