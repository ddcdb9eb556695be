import EntityTable.Proofs.Inheritance.Completion
import EntityTable.Proofs.Inheritance.Moments
import Mathlib.Algebra.BigOperators.Group.List.Basic
import Mathlib.Algebra.GroupWithZero.Nat
import Mathlib.Data.List.Perm.Subperm

/-!
Every question to a resolver comes to its end, also where references lead in a circle. The
templates on the way are distinct, so that no call goes deeper than the table has keys, and each
step takes something off what is left to do.
-/

namespace EntityTable

/-- Steps that a template can cost once it is entered. A turret costs three: it is looked at, its
template is asked for, and the answer is taken. Two more leave the template and remember it. -/
def Template.effort (template : Template) : Nat := 3 * template.turrets.length + 2

def Visit.effort (visit : Visit) : Nat := 3 * visit.ahead.length + 2

def Activity.effort : Activity → Nat
  | .asking _ | .finishing _ => 1
  | .scanning visit => visit.effort
  | .answering _ | .raising _ => 0

namespace Table

def effort (table : Table) : Nat := (table.map fun entry => entry.2.effort).sum

/-- The effort for the templates that are not among `touched`. -/
def untouched (table : Table) (touched : List Text) : Nat :=
  effort (table.filter fun entry => !touched.contains entry.1)

variable {table : Table}

theorem untouched_congr {xs ys : List Text} (h : ∀ key, key ∈ xs ↔ key ∈ ys) :
    table.untouched xs = table.untouched ys := by
  unfold untouched
  congr 1
  exact List.filter_congr fun entry _ => by simp [h]

theorem untouched_cons (entry : Text × Template) (table : Table) (touched : List Text) :
    Table.untouched (entry :: table) touched =
      (if entry.1 ∈ touched then 0 else entry.2.effort) + table.untouched touched := by
  by_cases h : entry.1 ∈ touched <;> simp [untouched, effort, h]

theorem untouched_anti {xs ys : List Text} (h : xs ⊆ ys) :
    table.untouched ys ≤ table.untouched xs := by
  induction table with
  | nil => exact Nat.le_refl _
  | cons entry rest ih =>
    rw [untouched_cons, untouched_cons]
    have hone : (if entry.1 ∈ ys then 0 else entry.2.effort) ≤
        if entry.1 ∈ xs then 0 else entry.2.effort := by
      by_cases hx : entry.1 ∈ xs
      · simp [h hx]
      · rw [if_neg hx]
        split <;> simp
    omega

theorem untouched_nil : table.untouched [] = table.effort := by simp [untouched]

/-- What is entered is no longer left. -/
theorem untouched_append_singleton {touched : List Text} {key : Text} {template : Template}
    (hk : key ∉ touched) (ht : (key, template) ∈ table) :
    table.untouched (touched ++ [key]) + template.effort ≤ table.untouched touched := by
  induction table with
  | nil => cases ht
  | cons entry rest ih =>
    rw [untouched_cons, untouched_cons]
    rcases List.mem_cons.mp ht with rfl | ht
    · have hrest : untouched rest (touched ++ [key]) ≤ untouched rest touched :=
        untouched_anti (List.subset_append_left touched [key])
      simp only [List.mem_append, List.mem_singleton, or_true, if_true, hk, if_false]
      omega
    · have hrest := ih ht
      by_cases hm : entry.1 ∈ touched
      · simp only [List.mem_append, hm, true_or, if_true]
        omega
      · simp only [hm, if_false]
        split <;> omega

/-- The way of a walk: distinct templates of the table, each with a turret that names the next one,
and none of them remembered. -/
structure Orderly (table : Table) (memo : Memo) (visiting : List Text) : Prop where
  nodup : visiting.Nodup
  known : ∀ key ∈ visiting, key ∈ table.keys
  chain : visiting.IsChain table.References
  apart : visiting.Disjoint memo.keys

namespace Orderly

variable {memo : Memo} {visiting : List Text} {key : Text}

theorem nil (table : Table) (memo : Memo) : table.Orderly memo [] :=
  ⟨List.nodup_nil, fun _ h => absurd h List.not_mem_nil, List.isChain_nil, List.disjoint_nil_left _⟩

theorem enter (h : table.Orderly memo visiting) (fresh : key ∉ memo.keys) (off : key ∉ visiting)
    (known : key ∈ table.keys) (chain : (visiting ++ [key]).IsChain table.References) :
    table.Orderly memo (visiting ++ [key]) := by
  refine ⟨?_, ?_, chain, ?_⟩
  · exact h.nodup.append (List.nodup_singleton key) (List.disjoint_singleton.mpr off)
  · intro other ho
    rcases List.mem_append.mp ho with ho | ho
    · exact h.known other ho
    · exact List.mem_singleton.mp ho ▸ known
  · exact List.disjoint_append_left.mpr ⟨h.apart, List.singleton_disjoint.mpr fresh⟩

theorem leave (h : table.Orderly memo visiting) : table.Orderly memo visiting.dropLast := by
  have hpart : visiting.dropLast <+: visiting := List.dropLast_prefix visiting
  refine ⟨h.nodup.sublist hpart.sublist, ?_, h.chain.prefix hpart, ?_⟩
  · intro key hk
    exact h.known key (hpart.subset hk)
  · exact List.disjoint_of_subset_left hpart.subset h.apart

theorem remember (h : table.Orderly memo visiting) (off : key ∉ visiting)
    (armaments : List Armament) : table.Orderly (memo ++ [(key, armaments)]) visiting := by
  refine ⟨h.nodup, h.known, h.chain, ?_⟩
  rw [Walk.keys_append]
  exact List.disjoint_append_right.mpr ⟨h.apart, List.disjoint_singleton.mpr off⟩

theorem chain_append (h : table.Orderly memo visiting) {last : Text}
    (hl : visiting.getLast? = some last) (hr : table.References last key) :
    (visiting ++ [key]).IsChain table.References := by
  refine List.isChain_append.mpr ⟨h.chain, List.isChain_singleton key, ?_⟩
  simpa [hl] using hr

theorem length_le (h : table.Orderly memo visiting) : visiting.length ≤ table.keys.length :=
  (List.Nodup.subperm h.nodup h.known).length_le

end Orderly
end Table

namespace Visit

/-- What a call holds on to stands in the table. -/
structure Sound (table : Table) (visit : Visit) : Prop where
  known : table.get? visit.key = some visit.template
  ahead : visit.ahead <:+ visit.template.turrets

variable {table : Table} {visit : Visit} {turret : Turret} {ahead : List Turret}

theorem Sound.suffix (h : visit.Sound table) (next : visit.ahead = turret :: ahead) :
    ahead <:+ visit.template.turrets :=
  (List.suffix_cons turret ahead).trans (next ▸ h.ahead)

theorem Sound.references (h : visit.Sound table) (next : visit.ahead = turret :: ahead)
    {target : Text} (named : turret.reference = some target) :
    table.References visit.key target := by
  have hmem : turret ∈ visit.template.turrets := h.ahead.subset (by simp [next])
  exact (Table.references_iff_of_get? h.known).mpr ⟨turret, hmem, named⟩

end Visit

namespace Moment

/-- How many calls are not over. -/
def depth (m : Moment) : Nat :=
  match m.activity with
  | .asking _ | .scanning _ | .finishing _ => m.waiting.length + 1
  | .answering _ | .raising _ => m.waiting.length

/-- The calls whose templates are on the way, the innermost first. -/
def opened (m : Moment) : List Visit :=
  match m.activity with
  | .scanning visit => visit :: m.waiting
  | _ => m.waiting

/-- What the activity adds to the invariant: what is asked for has been referred to, and what has
been left is off the way. -/
def Fits (table : Table) (m : Moment) : Prop :=
  match m.activity with
  | .asking key => (m.visiting ++ [key]).IsChain table.References
  | .scanning visit => visit.Sound table
  | .finishing visit => visit.key ∉ m.visiting
  | .answering _ | .raising _ => True

/-- The invariant of the steps. -/
structure Sound (table : Table) (m : Moment) : Prop where
  orderly : table.Orderly m.memo m.visiting
  visiting_eq : m.visiting = (m.opened.map Visit.key).reverse
  waiting : ∀ visit ∈ m.waiting, visit.Sound table
  fits : m.Fits table

/-- Templates that are remembered, on the way, or between the two. -/
def touched (m : Moment) : List Text :=
  m.memo.keys ++ m.visiting ++
    match m.activity with
    | .finishing visit => [visit.key]
    | _ => []

/-- An upper bound of the steps that are left. A failure only goes through the waiting calls. -/
def effort (table : Table) (m : Moment) : Nat :=
  match m.activity with
  | .raising _ => m.waiting.length
  | activity =>
    table.untouched m.touched + (m.waiting.map fun visit => visit.effort + 1).sum + activity.effort

variable {table : Table} {m m' : Moment}

theorem Sound.follows (h : m.Sound table) (hs : table.Follows m m') : m'.Sound table := by
  have hway := h.visiting_eq
  have hfits := h.fits
  cases hs with
  | hit key armaments asks found
  | meet key asks fresh again
  | miss key asks fresh off absent =>
    simp only [opened, asks] at hway
    exact ⟨h.orderly, hway, h.waiting, trivial⟩
  | enter key template asks fresh off known =>
    simp only [opened, Fits, asks] at hway hfits
    have hfresh : key ∉ m.memo.keys := Entries.get?_eq_none_iff.mp fresh
    have hknown : key ∈ table.keys := Entries.mem_keys_of_get? known
    refine ⟨h.orderly.enter hfresh off hknown hfits, ?_, h.waiting, known, List.suffix_refl _⟩
    simp [opened, Visit.start, hway]
  | leave visit scans through =>
    simp only [opened, Fits, scans, List.map_cons, List.reverse_cons] at hway hfits
    have hoff : visit.key ∉ m.visiting.dropLast := by
      have hnodup := h.orderly.nodup
      rw [hway, List.nodup_append] at hnodup
      rw [hway, List.dropLast_concat]
      exact fun hk => hnodup.2.2 _ hk _ (List.mem_singleton_self _) rfl
    refine ⟨h.orderly.leave, ?_, h.waiting, hoff⟩
    rw [hway, List.dropLast_concat]
    rfl
  | skip visit turret ahead scans next bare =>
    simp only [opened, Fits, scans] at hway hfits
    exact ⟨h.orderly, hway, h.waiting, hfits.known, hfits.suffix next⟩
  | call visit turret ahead target scans next named known =>
    simp only [opened, Fits, scans] at hway hfits
    refine ⟨h.orderly, hway, ?_, ?_⟩
    · exact List.forall_mem_cons.mpr ⟨⟨hfits.known, hfits.suffix next⟩, h.waiting⟩
    · exact h.orderly.chain_append (by simp [hway]) (hfits.references next named)
  | refuse visit turret ahead target scans next named absent =>
    simp only [opened, Fits, scans] at hway hfits
    refine ⟨h.orderly, hway, ?_, trivial⟩
    exact List.forall_mem_cons.mpr ⟨⟨hfits.known, hfits.suffix next⟩, h.waiting⟩
  | remember visit finishes =>
    simp only [opened, Fits, finishes] at hway hfits
    exact ⟨h.orderly.remember hfits _, hway, h.waiting, trivial⟩
  | resume visit waiting armaments answers waits =>
    simp only [opened, answers, waits] at hway
    obtain ⟨hvisit, hrest⟩ := List.forall_mem_cons.mp (waits ▸ h.waiting)
    exact ⟨h.orderly, hway, hrest, hvisit.known, hvisit.ahead⟩
  | unwind visit waiting failure raises waits =>
    simp only [opened, raises, waits, List.map_cons, List.reverse_cons] at hway
    obtain ⟨-, hrest⟩ := List.forall_mem_cons.mp (waits ▸ h.waiting)
    refine ⟨h.orderly.leave, ?_, hrest, trivial⟩
    rw [hway, List.dropLast_concat]
    rfl

theorem length_waiting_le (m : Moment) : m.waiting.length ≤ m.opened.length := by
  unfold opened
  split <;> simp

theorem Sound.depth_le (h : m.Sound table) : m.depth ≤ table.keys.length + 1 := by
  have hopened : m.visiting.length = m.opened.length := by simp [h.visiting_eq]
  have hwaiting := m.length_waiting_le
  have hkeys := h.orderly.length_le
  unfold depth
  split <;> omega

/-- Wherever a call fails, enough is left for going back through the calls that wait for it. -/
theorem length_waiting_le_effort (table : Table) (m : Moment) :
    m.waiting.length + m.activity.effort ≤ m.effort table := by
  have hsum : m.waiting.length ≤ (m.waiting.map fun visit => visit.effort + 1).sum := by
    have hle := List.length_le_sum_of_one_le (m.waiting.map fun visit => visit.effort + 1)
      (by simp)
    rwa [List.length_map] at hle
  unfold effort
  split
  · rename_i failure raises
    simp [raises, Activity.effort]
  · omega

/-- Every step takes something off what is left to do. -/
theorem Sound.effort_lt (h : m.Sound table) (hs : table.Follows m m') :
    m'.effort table < m.effort table := by
  have hwaiting := m.length_waiting_le_effort table
  cases hs with
  | hit key armaments asks found =>
    simp only [effort, touched, asks, Activity.effort]
    omega
  | meet key asks fresh again
  | miss key asks fresh off absent =>
    simp only [asks, Activity.effort] at hwaiting
    exact hwaiting
  | enter key template asks fresh off known =>
    have hfresh : key ∉ m.memo.keys := Entries.get?_eq_none_iff.mp fresh
    have hkey : key ∉ m.memo.keys ++ m.visiting := by simp [hfresh, off]
    have hrest := Table.untouched_append_singleton hkey (Entries.mem_of_get? known)
    have hstart : (Visit.start key template).effort = template.effort := rfl
    simp only [effort, touched, asks, Activity.effort, List.append_nil, ← List.append_assoc]
    omega
  | leave visit scans through =>
    have hway := h.visiting_eq
    simp only [opened, scans, List.map_cons, List.reverse_cons] at hway
    have hleft : m.visiting.dropLast ++ [visit.key] = m.visiting := by
      rw [hway, List.dropLast_concat]
    simp only [effort, touched, scans, Activity.effort, Visit.effort, through, List.append_assoc,
      List.append_nil, hleft, List.length_nil]
    omega
  | skip visit turret ahead scans next bare =>
    simp only [effort, touched, scans, Activity.effort, Visit.effort, Visit.skip, next,
      List.length_cons]
    omega
  | call visit turret ahead target scans next named known =>
    simp only [effort, touched, scans, Activity.effort, Visit.effort, next, List.length_cons,
      List.map_cons, List.sum_cons]
    omega
  | refuse visit turret ahead target scans next named absent =>
    simp only [scans, Activity.effort, Visit.effort, next, List.length_cons] at hwaiting
    show m.waiting.length + 1 < m.effort table
    omega
  | remember visit finishes =>
    have htouched : table.untouched (m.remember visit).touched = table.untouched m.touched := by
      apply Table.untouched_congr
      intro key
      simp [touched, Moment.remember, finishes, Entries.keys, or_assoc, or_comm]
    have hdone : (m.remember visit).effort table = table.untouched (m.remember visit).touched +
        (m.waiting.map fun visit => visit.effort + 1).sum + 0 := rfl
    rw [hdone, htouched]
    simp only [effort, finishes, Activity.effort]
    omega
  | resume visit waiting armaments answers waits =>
    simp only [effort, touched, answers, waits, Activity.effort, Visit.effort, Visit.take,
      List.map_cons, List.sum_cons]
    omega
  | unwind visit waiting failure raises waits =>
    simp only [effort, raises, waits, List.length_cons]
    omega

/-- A whole run, by induction on its steps. -/
theorem Sound.run {n : Nat} (h : m.Sound table) (hr : table.run n m = some m') :
    m'.Sound table ∧ n + m'.effort table ≤ m.effort table := by
  induction n generalizing m with
  | zero =>
    obtain rfl := Option.some.inj hr
    exact ⟨h, by omega⟩
  | succ n ih =>
    obtain ⟨next, hstep, hrest⟩ := Option.bind_eq_some_iff.mp hr
    have hs := Table.step_eq_some_iff.mp hstep
    obtain ⟨hsound, hle⟩ := ih (h.follows hs) hrest
    have hlt := h.effort_lt hs
    exact ⟨hsound, by omega⟩

/-- A call that walks a template has fewer keys off its way than the call that asked for it. -/
theorem unvisited_lt_of_scanning {nested : Text} {visit : Visit} (hs : table.Follows m m')
    (hasks : m.activity = .asking nested) (hscans : m'.activity = .scanning visit) :
    table.unvisited m'.visiting < table.unvisited m.visiting := by
  cases hs with
  | enter key template asks fresh off known =>
    have hoff : ¬m.visiting.contains key = true := by simpa using off
    exact Table.unvisited_lt hoff (Entries.mem_keys_of_get? known)
  | skip visit turret ahead scans next bare => simp [scans] at hasks
  | resume visit waiting armaments answers waits => simp [answers] at hasks
  | _ => cases hscans

end Moment

namespace Resolver

theorem sound_asked {r : Resolver} {table : Table} (hv : r.visiting = []) (key : Text) :
    (r.asked key).Sound table := by
  obtain ⟨own, memo, visiting⟩ := r
  subst hv
  exact ⟨.nil table memo, rfl, List.forall_mem_nil _, List.isChain_singleton key⟩

theorem effort_asked_le (r : Resolver) (table : Table) (key : Text) :
    (r.asked key).effort table ≤ table.effort + 1 := by
  have hrest : table.untouched (r.asked key).touched ≤ table.untouched [] :=
    Table.untouched_anti (List.nil_subset _)
  rw [Table.untouched_nil] at hrest
  show table.untouched (r.asked key).touched + 0 + 1 ≤ table.effort + 1
  omega

/-- Whatever was asked before and wherever references lead, the way is in order at every moment of
a question. So each call that walks a template leaves fewer keys off the way, no call is deeper
than all keys and one more, and after finitely many steps, whose number is linear in the size of
the table, the question is answered or refused. -/
theorem resolve_terminates (table : Table) (calls : List Text) (key : Text) :
    (∀ n m, table.run n (((ofTable table).after calls).asked key) = some m →
      table.Orderly m.memo m.visiting ∧ m.depth ≤ table.keys.length + 1 ∧
        ∀ nested visit next, m.activity = .asking nested → table.step m = some next →
          next.activity = .scanning visit →
            table.unvisited next.visiting < table.unvisited m.visiting) ∧
      ∃ n ≤ table.effort + 1,
        table.run n (((ofTable table).after calls).asked key) =
            some (((ofTable table).after calls).answered key) ∧
          table.step (((ofTable table).after calls).answered key) = none := by
  let r := (ofTable table).after calls
  have hready : Ready table r := (ready_ofTable table).after calls
  have hsound : (r.asked key).Sound table := sound_asked hready.visiting_nil key
  constructor
  · intro n m hr
    obtain ⟨hm, -⟩ := hsound.run hr
    refine ⟨hm.orderly, hm.depth_le, ?_⟩
    intro nested visit next asks hstep scans
    exact Moment.unvisited_lt_of_scanning (Table.step_eq_some_iff.mp hstep) asks scans
  · obtain ⟨n, hn⟩ := r.becomes_answered key
    rw [hready.table_eq] at hn
    have hle := (hsound.run hn).2
    have hstart := r.effort_asked_le table key
    exact ⟨n, by omega, hn, r.step_answered key table⟩

/-- Where two templates name each other, the last call is as deep as the bound allows. -/
example :
    let table : Table := [("a", .ofMounts [some "b"] []), ("b", .ofMounts [some "a"] [])]
    (table.run 4 ((ofTable table).asked "a")).map Moment.depth = some (table.keys.length + 1) := by
  decide

end Resolver
end EntityTable
