import EntityTable.Proofs.Inheritance.History
import EntityTable.Proofs.Outcome

/-!
When a template cannot be resolved, and what is reported. A defective walk passes distinct
templates and ends at a key that the table does not hold or that it has passed before; the report
is that of the lexicographically first one.
-/

namespace EntityTable

open Relation (ReflTransGen TransGen)

theorem dropWhile_ne_eq_of_nodup {front loop : List Text} {key : Text}
    (h : (front ++ key :: loop).Nodup) :
    (front ++ key :: loop).dropWhile (· ≠ key) = key :: loop := by
  induction front with
  | nil => simp
  | cons first front ih =>
    obtain ⟨hfirst, hrest⟩ := List.nodup_cons.mp h
    have hne : first ≠ key := by
      intro heq
      subst heq
      exact hfirst (by simp)
    simpa [hne] using ih hrest

namespace Table

/-- The failure at the end of a walk that has passed `passed` and come to `target`, the last step
having been made through the turret at the last of `positions`. -/
inductive Defect (table : Table) (positions : List Nat) (passed : List Text) (target : Text) :
    Failure → Prop
  | unknown (owner : Text) (position : Nat) (last : passed.getLast? = some owner)
      (through : positions.getLast? = some position) (absent : target ∉ table.keys) :
      Defect table positions passed target (.unknownReference owner position target)
  | cycle (front loop : List Text) (again : passed = front ++ target :: loop) :
      Defect table positions passed target (.referenceCycle (target :: loop ++ [target]))

/-- A walk past distinct templates to a defect; `visiting` are those on the way to its start. -/
def DefectiveWalk (table : Table) (visiting : List Text) (start : Text) (positions : List Nat)
    (failure : Failure) : Prop :=
  ∃ passed target, table.stops? start positions = some (passed ++ [target]) ∧
    (visiting ++ passed).Nodup ∧ table.Defect positions (visiting ++ passed) target failure

/-- A defective walk with no other before it in lexicographic order. -/
def FirstDefect (table : Table) (visiting : List Text) (start : Text) (positions : List Nat)
    (failure : Failure) : Prop :=
  table.DefectiveWalk visiting start positions failure ∧
    ∀ positions' failure', table.DefectiveWalk visiting start positions' failure' →
      ¬positions' < positions

/-- References lead from the template to one that names an unknown key or is on a cycle. -/
def ReachesDefect (table : Table) (key : Text) : Prop :=
  ∃ reached, ReflTransGen table.References key reached ∧
    ((∃ target, table.References reached target ∧ target ∉ table.keys) ∨
      TransGen table.References reached reached)

/-- A way along references from a template back to itself that passes no other one twice. -/
structure IsCycle (table : Table) (cycle : List Text) : Prop where
  two_le_length : 2 ≤ cycle.length
  head_eq_last : cycle.head? = cycle.getLast?
  nodup : cycle.dropLast.Nodup
  known : ∀ key ∈ cycle, key ∈ table.keys
  chain : cycle.IsChain table.References

variable {table : Table} {visiting : List Text} {key : Text}

theorem Defect.cons {positions : List Nat} {passed : List Text} {target : Text}
    {failure : Failure} (position : Nat) (h : table.Defect positions passed target failure) :
    table.Defect (position :: positions) passed target failure := by
  cases h with
  | unknown owner i last through absent =>
    exact .unknown owner i last (by simp [List.getLast?_cons, through]) absent
  | cycle front loop again => exact .cycle front loop again

/-- A walk that starts on its own way has failed already. -/
theorem firstDefect_of_mem (hn : visiting.Nodup) (hv : key ∈ visiting) :
    table.FirstDefect visiting key []
      (.referenceCycle (visiting.dropWhile (· ≠ key) ++ [key])) := by
  obtain ⟨front, loop, rfl⟩ := List.append_of_mem hv
  refine ⟨⟨[], key, rfl, by simpa using hn, ?_⟩, fun positions' _ _ => List.not_lt_nil positions'⟩
  rw [dropWhile_ne_eq_of_nodup hn]
  exact .cycle front loop (by simp)

theorem ne_nil_of_defectiveWalk {positions : List Nat} {failure : Failure} (hv : key ∉ visiting)
    (h : table.DefectiveWalk visiting key positions failure) : positions ≠ [] := by
  intro hnil
  subst hnil
  obtain ⟨passed, target, hs, -, hd⟩ := h
  obtain ⟨rfl, rfl⟩ := stops?_nil_eq_concat_iff.mp hs
  cases hd with
  | unknown owner position last through => simp at through
  | cycle front loop again =>
    rw [List.append_nil] at again
    exact hv (by simp [again])

theorem defectiveWalk_cons_iff (hn : (visiting ++ [key]).Nodup)
    (hk : ∀ passed ∈ visiting ++ [key], passed ∈ table.keys) {position : Nat} {rest : List Nat}
    {failure : Failure} :
    table.DefectiveWalk visiting key (position :: rest) failure ↔ ∃ target,
      table.named? key position = some target ∧
        (target ∉ table.keys ∧ rest = [] ∧ failure = .unknownReference key position target ∨
          target ∈ table.keys ∧
            table.DefectiveWalk (visiting ++ [key]) target rest failure) := by
  constructor
  · intro h
    obtain ⟨passed, target, hs, hnp, hd⟩ := h
    obtain ⟨next, front, hname, hrest, rfl⟩ := stops?_cons_eq_concat_iff.mp hs
    refine ⟨next, hname, ?_⟩
    by_cases hnext : next ∈ table.keys
    · refine .inr ⟨hnext, front, target, hrest, by simpa using hnp, ?_⟩
      cases hd with
      | unknown owner i last through absent =>
        cases rest with
        | nil =>
          obtain ⟨-, rfl⟩ := stops?_nil_eq_concat_iff.mp hrest
          exact absurd hnext absent
        | cons _ _ =>
          exact .unknown owner i (by simpa using last) (by simpa using through) absent
      | cycle front' loop again => exact .cycle front' loop (by simpa using again)
    · obtain ⟨rfl, rfl, rfl⟩ := stops?_of_absent hnext hrest
      refine .inl ⟨hnext, rfl, ?_⟩
      cases hd with
      | unknown owner i last through absent =>
        obtain rfl : key = owner := by simpa using last
        obtain rfl : position = i := by simpa using through
        rfl
      | cycle front' loop again => exact absurd (hk target (by simp [again])) hnext
  · intro h
    obtain ⟨next, hname, ⟨habs, rfl, rfl⟩ | ⟨hkn, passed, target, hs, hnp, hd⟩⟩ := h
    · refine ⟨[key], next, by simp [stops?, hname], by simpa using hn, ?_⟩
      exact .unknown key position (by simp) (by simp) habs
    · refine ⟨key :: passed, target, by simp [stops?, hname, hs], by simpa using hnp, ?_⟩
      simpa using hd.cons position

/-- An outcome tells the truth about the defects behind a template. -/
def Reports (table : Table) (visiting : List Text) (key : Text) :
    Except Failure (List Armament) → Prop
  | .ok _ => ∀ positions failure, ¬table.DefectiveWalk visiting key positions failure
  | .error failure => ∃ positions, table.FirstDefect visiting key positions failure

/-- The first turret to fail begins the first defective walk: those before it lead to none. -/
theorem firstDefect_of_turret {template : Template} {before after : List Turret}
    {turret : Turret} {target : Text} {failure : Failure}
    (hn : (visiting ++ [key]).Nodup)
    (hk : ∀ passed ∈ visiting ++ [key], passed ∈ table.keys)
    (ht : table.get? key = some template) (hsplit : template.turrets = before ++ turret :: after)
    (hr : turret.reference = some target)
    (hb : ∀ position < before.length, ∀ named, table.named? key position = some named →
      named ∈ table.keys ∧ ∀ rest failure,
        ¬table.DefectiveWalk (visiting ++ [key]) named rest failure)
    (hd : target ∉ table.keys ∧ failure = .unknownReference key before.length target ∨
      target ∈ table.keys ∧
        ∃ rest, table.FirstDefect (visiting ++ [key]) target rest failure) :
    ∃ positions, table.FirstDefect visiting key positions failure := by
  have hname : table.named? key before.length = some target := by
    rw [named?_of_get? ht, hsplit]
    simp [hr]
  have hkey : key ∉ visiting := fun hv => (List.nodup_append.mp hn).2.2 key hv key (by simp) rfl
  have hlast : ∃ rest, table.DefectiveWalk visiting key (before.length :: rest) failure ∧
      (∀ rest' failure', table.DefectiveWalk visiting key (before.length :: rest') failure' →
        ¬rest' < rest) := by
    rcases hd with ⟨habs, rfl⟩ | ⟨hknown, rest, hwalk, hfirst⟩
    · refine ⟨[], (defectiveWalk_cons_iff hn hk).mpr ⟨target, hname, .inl ⟨habs, rfl, rfl⟩⟩, ?_⟩
      intro rest' failure' _
      exact List.not_lt_nil rest'
    · refine ⟨rest, (defectiveWalk_cons_iff hn hk).mpr ⟨target, hname, .inr ⟨hknown, hwalk⟩⟩, ?_⟩
      intro rest' failure' hwalk'
      obtain ⟨target', hname', hd'⟩ := (defectiveWalk_cons_iff hn hk).mp hwalk'
      obtain rfl : target = target' := by simpa [hname] using hname'
      rcases hd' with ⟨habs, -, -⟩ | ⟨-, hwalk'⟩
      · exact absurd hknown habs
      · exact hfirst rest' failure' hwalk'
  obtain ⟨rest, hwalk, hfirst⟩ := hlast
  refine ⟨before.length :: rest, hwalk, ?_⟩
  -- an earlier walk would begin at a turret before this one, or have an earlier rest behind it
  intro positions' failure' hwalk' hlt
  obtain ⟨position, rest', rfl⟩ :=
    List.exists_cons_of_ne_nil (ne_nil_of_defectiveWalk hkey hwalk')
  rcases List.cons_lt_cons_iff.mp hlt with hbefore | ⟨rfl, hless⟩
  · obtain ⟨named, hnamed, hd'⟩ := (defectiveWalk_cons_iff hn hk).mp hwalk'
    obtain ⟨hknown, hnone⟩ := hb position hbefore named hnamed
    rcases hd' with ⟨habs, -, -⟩ | ⟨-, hwalk'⟩
    · exact habs hknown
    · exact hnone rest' failure' hwalk'
  · exact hfirst rest' failure' hwalk' hless

theorem Reports.not_defectiveWalk {outcome : Except Failure (List Armament)}
    (h : table.Reports visiting key outcome) (hok : ∃ found, outcome = .ok found)
    (positions : List Nat) (failure : Failure) :
    ¬table.DefectiveWalk visiting key positions failure := by
  obtain ⟨found, rfl⟩ := hok
  exact h positions failure

/-- What a template tells is true if what the templates named by its turrets tell is. -/
theorem reports_of_get? {template : Template} (hm : key ∉ visiting)
    (hn : (visiting ++ [key]).Nodup) (hk : ∀ passed ∈ visiting ++ [key], passed ∈ table.keys)
    (ht : table.get? key = some template)
    (hr : ∀ named ∈ table.keys,
      table.Reports (visiting ++ [key]) named (table.collect (visiting ++ [key]) named)) :
    table.Reports visiting key (table.collect visiting key) := by
  cases hc : table.collect visiting key with
  | ok armaments =>
    intro positions failure hwalk
    obtain ⟨position, rest, rfl⟩ := List.exists_cons_of_ne_nil (ne_nil_of_defectiveWalk hm hwalk)
    obtain ⟨target, hname, hd⟩ := (defectiveWalk_cons_iff hn hk).mp hwalk
    obtain ⟨hknown, hok⟩ := collect_target hc ⟨position, hname⟩
    rcases hd with ⟨habs, -, -⟩ | ⟨-, hwalk⟩
    · exact habs hknown
    · exact (hr target hknown).not_defectiveWalk hok rest failure hwalk
  | error failure =>
    rw [collect_of_get? hm ht] at hc
    have hf : collectFrom (table.collect (visiting ++ [key])) table key 0 template.turrets =
        .error failure := map_eq_error_iff.mp hc
    obtain ⟨before, turret, after, target, hsplit, href, hb, hd⟩ := first_failure_of_collectFrom hf
    refine firstDefect_of_turret hn hk ht hsplit href ?_ ?_
    · intro position hlt named hname
      rw [named?_of_get? ht, hsplit, List.getElem?_append_left hlt,
        List.getElem?_eq_getElem hlt] at hname
      obtain ⟨hknown, hok⟩ := hb _ (List.getElem_mem hlt) named hname
      exact ⟨hknown, (hr named hknown).not_defectiveWalk hok⟩
    · rcases hd with ⟨habs, rfl⟩ | ⟨hknown, hfail⟩
      · exact .inl ⟨habs, by simp⟩
      · have hreports := hr target hknown
        rw [hfail] at hreports
        exact .inr ⟨hknown, hreports⟩

theorem collect_reports (visiting : List Text) (key : Text) (hn : visiting.Nodup)
    (hv : ∀ passed ∈ visiting, passed ∈ table.keys) (hk : key ∈ table.keys) :
    table.Reports visiting key (table.collect visiting key) := by
  induction visiting, key using collect.induct table with
  | case1 visiting key hm =>
    have hm : key ∈ visiting := by simpa using hm
    rw [collect_of_mem hm]
    exact ⟨[], firstDefect_of_mem hn hm⟩
  | case2 visiting key hm hnone => exact absurd hk (Entries.get?_eq_none_iff.mp hnone)
  | case3 visiting key hm template ht ih =>
    have hm : key ∉ visiting := by simpa using hm
    have hn' : (visiting ++ [key]).Nodup :=
      hn.append (List.nodup_singleton key) (List.disjoint_singleton.mpr hm)
    have hv' : ∀ passed ∈ visiting ++ [key], passed ∈ table.keys := by
      intro passed hp
      rcases List.mem_append.mp hp with hp | hp
      · exact hv passed hp
      · exact List.mem_singleton.mp hp ▸ hk
    exact reports_of_get? hm hn' hv' ht fun named hknown => ih named hn' hv' hknown

theorem isCycle_of_defectiveWalk {positions : List Nat} {cycle : List Text}
    (h : table.DefectiveWalk [] key positions (.referenceCycle cycle)) : table.IsCycle cycle := by
  obtain ⟨passed, target, hs, hn, hd⟩ := h
  cases hd with
  | cycle front loop again =>
    rw [List.nil_append] at again hn
    subst again
    have hchain : (target :: loop ++ [target]).IsChain table.References :=
      (stops?_isChain hs).suffix ⟨front, by simp⟩
    have hloop : (target :: loop).Nodup := (List.nodup_append.mp hn).2.1
    refine ⟨by simp, ?_, by rwa [List.dropLast_concat], ?_, hchain⟩
    · rw [List.getLast?_append]
      rfl
    · intro passed hp
      apply mem_keys_of_isChain hchain
      simp only [List.mem_append, List.mem_singleton] at hp
      rcases hp with hp | rfl
      · exact hp
      · exact List.mem_cons_self ..

theorem reachesDefect_of_defectiveWalk {positions : List Nat} {failure : Failure}
    (h : table.DefectiveWalk [] key positions failure) : table.ReachesDefect key := by
  obtain ⟨passed, target, hs, -, hd⟩ := h
  cases hd with
  | unknown owner position last through absent =>
    obtain ⟨front, rfl⟩ := List.getLast?_eq_some_iff.mp last
    rw [List.append_assoc] at hs
    have hstep : table.References owner target :=
      (List.isChain_cons_cons.mp ((stops?_isChain hs).suffix ⟨front, rfl⟩)).1
    exact ⟨owner, reaches_of_stops? hs, .inl ⟨target, hstep, absent⟩⟩
  | cycle front loop again =>
    rw [List.nil_append] at again
    subst again
    have hchain : (target :: loop ++ [target]).IsChain table.References :=
      (stops?_isChain hs).suffix ⟨front, by simp⟩
    rw [List.append_assoc] at hs
    exact ⟨target, reaches_of_stops? hs, .inr (transGen_of_isChain hchain)⟩

theorem not_reachesDefect_of_collect {armaments : List Armament}
    (h : table.collect visiting key = .ok armaments) : ¬table.ReachesDefect key := by
  intro hdefect
  obtain ⟨reached, hreach, ⟨target, hstep, habs⟩ | hcycle⟩ := hdefect
  · obtain ⟨found, hfound⟩ := collect_reached h hreach
    exact habs (collect_target hfound hstep).1
  · obtain ⟨found, hfound⟩ := collect_reached h hreach
    exact not_cyclic_of_collect hfound hcycle

/-- The positions of a defective walk decide its failure. -/
theorem defectiveWalk_unique {positions : List Nat} {failure failure' : Failure}
    (h : table.DefectiveWalk [] key positions failure)
    (h' : table.DefectiveWalk [] key positions failure') : failure = failure' := by
  obtain ⟨passed, target, hs, hn, hd⟩ := h
  obtain ⟨passed', target', hs', -, hd'⟩ := h'
  rw [hs, Option.some.injEq] at hs'
  obtain ⟨rfl, htarget⟩ := List.append_inj' hs' rfl
  obtain rfl : target = target' := by simpa using htarget
  rw [List.nil_append] at hn hd hd'
  have hknown (key' : Text) (hk : key' ∈ passed) := mem_keys_of_isChain (stops?_isChain hs) hk
  cases hd with
  | unknown owner position last through absent =>
    cases hd' with
    | unknown owner' position' last' through' absent' => simp_all
    | cycle front loop again => exact absurd (hknown target (by simp [again])) absent
  | cycle front loop again =>
    cases hd' with
    | unknown owner' position' last' through' absent' =>
      exact absurd (hknown target (by simp [again])) absent'
    | cycle front' loop' again' =>
      have hfront := dropWhile_ne_eq_of_nodup (again ▸ hn)
      have hfront' := dropWhile_ne_eq_of_nodup (again' ▸ hn)
      rw [← again] at hfront
      rw [← again', hfront] at hfront'
      rw [hfront']

theorem firstDefect_unique {positions positions' : List Nat} {failure failure' : Failure}
    (h : table.FirstDefect [] key positions failure)
    (h' : table.FirstDefect [] key positions' failure') : failure = failure' := by
  have hle : positions = positions' :=
    List.le_antisymm (List.not_lt.mp (h.2 positions' failure' h'.1))
      (List.not_lt.mp (h'.2 positions failure h.1))
  subst hle
  exact defectiveWalk_unique h.1 h'.1

theorem collect_eq_error_iff (hk : key ∈ table.keys) (failure : Failure) :
    table.collect [] key = .error failure ↔
      ∃ positions, table.FirstDefect [] key positions failure := by
  have hreports := collect_reports [] key List.nodup_nil (by simp) hk
  constructor
  · intro h
    rwa [h] at hreports
  · intro hexists
    obtain ⟨positions, hfirst⟩ := hexists
    cases h : table.collect [] key with
    | ok armaments =>
      rw [h] at hreports
      exact absurd hfirst.1 (hreports positions failure)
    | error failure' =>
      rw [h] at hreports
      obtain ⟨positions', hfirst'⟩ := hreports
      rw [firstDefect_unique hfirst hfirst']

theorem exists_error_iff (hk : key ∈ table.keys) :
    (∃ failure, table.collect [] key = .error failure) ↔ table.ReachesDefect key := by
  constructor
  · intro hfails
    obtain ⟨failure, h⟩ := hfails
    obtain ⟨positions, hfirst⟩ := (collect_eq_error_iff hk failure).mp h
    exact reachesDefect_of_defectiveWalk hfirst.1
  · intro hreach
    cases h : table.collect [] key with
    | ok armaments => exact absurd hreach (not_reachesDefect_of_collect h)
    | error failure => exact ⟨failure, rfl⟩

end Table

namespace Resolver

/-- A fresh resolver refuses a template exactly if it reaches a defect, reports the first defective
walk from it, and every cycle it reports is one. -/
theorem resolve_reports_first_defect (table : Table) (key : Text) (hk : key ∈ table.keys) :
    ((∃ failure, ((ofTable table).resolve key).2.outcome = .error failure) ↔
        table.ReachesDefect key) ∧
      (¬table.ReachesDefect key →
        ∃ armaments, ((ofTable table).resolve key).2.outcome = .ok armaments) ∧
      (∀ failure, ((ofTable table).resolve key).2.outcome = .error failure ↔
        ∃ positions, table.FirstDefect [] key positions failure) ∧
      (∀ owner position target,
        ((Failure.unknownReference owner position target).diagnostic?.map fun d =>
          (d.owner, d.field)) =
            some (some owner,
              some (Text.concat ["turrets", "[", Text.ofNat position, "].", "type"]))) ∧
      ∀ cycle, ((ofTable table).resolve key).2.outcome = .error (.referenceCycle cycle) →
        table.IsCycle cycle := by
  rw [(ready_ofTable table).outcome key]
  refine ⟨Table.exists_error_iff hk, ?_, Table.collect_eq_error_iff hk, fun _ _ _ => rfl, ?_⟩
  · intro hnone
    cases h : table.collect [] key with
    | ok armaments => exact ⟨armaments, rfl⟩
    | error failure => exact absurd ((Table.exists_error_iff hk).mp ⟨failure, h⟩) hnone
  · intro cycle h
    obtain ⟨positions, hfirst⟩ := (Table.collect_eq_error_iff hk _).mp h
    exact Table.isCycle_of_defectiveWalk hfirst.1

/-- A ship with a sound gun, a boat that carries the ship itself, and a lost turret behind both. -/
def brokenFleet : Table :=
  [("gun", .ofMounts [] []), ("ship", .ofMounts [some "gun", some "boat", some "ghost"] []),
    ("boat", .ofMounts [none, some "ship"] [])]

/-- The cycle through the boat comes before the unknown key. -/
theorem resolve_brokenFleet :
    ("ship" : Text) ∈ brokenFleet.keys ∧ brokenFleet.ReachesDefect "ship" ∧
      (∃ positions, brokenFleet.FirstDefect [] "ship" positions
        (.referenceCycle ["ship", "boat", "ship"])) ∧
      brokenFleet.IsCycle ["ship", "boat", "ship"] := by
  have hk : ("ship" : Text) ∈ brokenFleet.keys := by decide
  have h : ((ofTable brokenFleet).resolve "ship").2.outcome =
      .error (.referenceCycle ["ship", "boat", "ship"]) := by with_unfolding_all rfl
  obtain ⟨hreach, -, hfirst, -, hcycle⟩ := resolve_reports_first_defect brokenFleet "ship" hk
  exact ⟨hk, hreach.mp ⟨_, h⟩, (hfirst _).mp h, hcycle _ h⟩

end Resolver
end EntityTable
