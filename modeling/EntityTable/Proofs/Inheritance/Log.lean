import EntityTable.Proofs.Inheritance.Attach
import EntityTable.Proofs.Inheritance.Completion

/-!
The log of a resolver. It tells of every template at the moment at which it is finished, with the
armaments that it then has, so that its order is that of the memory and its numbers are those of
the full lists.
-/

namespace EntityTable

open Relation (ReflTransGen)

/-- How many armaments a template of the table has of its own. -/
def Table.ownCount (table : Table) (key : Text) : Nat :=
  ((table.get? key).map fun template => template.armaments.length).getD 0

/-- What is logged of a template with its full list. -/
def Table.finishing (table : Table) (entry : Text × List Armament) : LogEvent :=
  .resolved entry.1 entry.2.length (entry.2.length - table.ownCount entry.1)

namespace Walk

variable {way : List Text} {table : Table} {before : Memo}

/-- The log of the walk tells what it adds to the memory, and nothing else. -/
def Tells (table : Table) (before : Memo) (walk : Walk way) : Prop :=
  ∃ added, walk.progress.memo = before ++ added ∧ walk.log = added.map table.finishing

theorem tells_nothing (table : Table) (progress : Progress way)
    (outcome : Except Failure (List Armament)) :
    Tells table progress.memo ⟨progress, [], outcome⟩ :=
  ⟨[], (List.append_nil _).symm, rfl⟩

theorem Tells.followed {first second : Walk way} (h : first.Tells table before)
    (h' : second.Tells table first.progress.memo) (outcome : Except Failure (List Armament)) :
    Tells table before ⟨second.progress, first.log ++ second.log, outcome⟩ := by
  obtain ⟨added, hmemo, hlog⟩ := h
  obtain ⟨more, hmemo', hlog'⟩ := h'
  refine ⟨added ++ more, ?_, ?_⟩
  · rw [← List.append_assoc, ← hmemo]
    exact hmemo'
  · rw [List.map_append, ← hlog, ← hlog']

theorem tells_inherited {visit : Progress way → Text → Walk way} {owner : Text}
    (hv : ∀ (progress : Progress way) target, (visit progress target).Tells table progress.memo)
    (turrets : List Turret) (index : Nat) (progress : Progress way) :
    (inherited visit table owner index turrets progress).Tells table progress.memo := by
  induction turrets generalizing index progress with
  | nil => exact tells_nothing table progress _
  | cons turret turrets ih =>
    cases hr : turret.reference with
    | none =>
      rw [inherited_of_bare hr]
      exact ih (index + 1) progress
    | some target =>
      have hfirst := hv progress target
      cases hc : table.contains target with
      | false =>
        rw [inherited_of_absent hr hc]
        exact tells_nothing table progress _
      | true =>
        cases ho : (visit progress target).outcome with
        | error failure =>
          rw [inherited_of_error hr hc ho]
          exact hfirst
        | ok armaments =>
          rw [inherited_of_ok hr hc ho]
          exact hfirst.followed (ih (index + 1) _) _

theorem Tells.complete {key : Text} {template : Template} {walk : Walk (way ++ [key])}
    (ht : table.get? key = some template) (h : walk.Tells table before) :
    (walk.complete template).Tells table before := by
  obtain ⟨added, hmemo, hlog⟩ := h
  unfold Walk.complete
  cases walk.outcome with
  | error failure => exact ⟨added, hmemo, hlog⟩
  | ok inherited =>
    refine ⟨added ++ [(key, template.armaments ++ inherited)], ?_, ?_⟩
    · show walk.progress.memo ++ _ = _
      rw [hmemo, List.append_assoc]
    · rw [List.map_append, ← hlog]
      simp [Table.finishing, Table.ownCount, ht]

end Walk

/-- By induction on the walk: only a template that is finished is logged, and it is remembered. -/
theorem Table.tells_walk (table : Table) {way : List Text} (progress : Progress way) (key : Text) :
    (table.walk progress key).Tells table progress.memo := by
  induction way, progress, key using walk.induct table with
  | case1 way progress key armaments hf =>
    rw [walk_of_memo hf]
    exact Walk.tells_nothing table progress _
  | case2 way progress key hf hv =>
    have hmem : key ∈ way := by simpa [progress.visiting_eq] using hv
    rw [walk_of_mem hf hmem]
    exact Walk.tells_nothing table progress _
  | case3 way progress key hf hv hn =>
    have hmem : key ∉ way := by simpa [progress.visiting_eq] using hv
    rw [walk_of_unknown hf hmem (Entries.get?_eq_none_iff.mp hn)]
    exact Walk.tells_nothing table progress _
  | case4 way progress key hf hv template ht ih =>
    have hmem : key ∉ way := by simpa [progress.visiting_eq] using hv
    rw [walk_of_get? hf hmem ht]
    exact (Walk.tells_inherited ih template.turrets 0 (progress.enter key)).complete ht

namespace Resolver

variable {table : Table} {r : Resolver}

theorem after_append (r : Resolver) (calls later : List Text) :
    r.after (calls ++ later) = (r.after calls).after later := List.foldl_append

/-- A sequence of questions, by induction: each adds to the memory what it logs. -/
theorem tells_after (hr : r.table = table) (calls : List Text) :
    ∃ added, (r.after calls).memo = r.memo ++ added ∧
      r.logOf calls = added.map table.finishing := by
  induction calls generalizing r with
  | nil => exact ⟨[], (List.append_nil _).symm, rfl⟩
  | cons call calls ih =>
    subst hr
    obtain ⟨added, hmemo, hlog⟩ := r.table.tells_walk ⟨r.memo, r.visiting, rfl⟩ call
    obtain ⟨more, hmemo', hlog'⟩ := @ih (r.resolve call).1 rfl
    refine ⟨added ++ more, ?_, ?_⟩
    · rw [← List.append_assoc, ← hmemo]
      exact hmemo'
    · rw [List.map_append, ← hlog, ← hlog']
      rfl

/-- Whatever is asked afterwards, a question that is answered leaves its key in the memory. -/
theorem mem_memo_of_answered {calls : List Text} {key : Text} (hk : key ∈ calls)
    {armaments : List Armament} (hc : table.collect [] key = .ok armaments) :
    key ∈ ((ofTable table).after calls).memo.keys := by
  obtain ⟨earlier, later, rfl⟩ := List.append_of_mem hk
  let r := (ofTable table).after earlier
  have hready : Ready table r := (ready_ofTable table).after earlier
  obtain ⟨added, hextends⟩ := (finishes_in_order table earlier).2.2 key
  have hanswer := (hextends.answered armaments ((hready.outcome key).trans hc)).1 key
  have hthere : key ∈ (r.resolve key).1.memo.keys := by
    rw [hextends.memo_eq, Walk.keys_append, List.mem_append]
    by_cases hm : key ∈ r.memo.keys
    · exact .inl hm
    · exact .inr (hanswer.mpr ⟨.refl, hm⟩)
  obtain ⟨more, hmore, -⟩ := tells_after (hready.resolve key).table_eq later
  have hafter : (ofTable table).after (earlier ++ key :: later) =
      (r.resolve key).1.after later := after_append ..
  rw [hafter, hmore, Walk.keys_append]
  exact List.mem_append_left _ hthere

theorem log_attachAll {entries attached : Table}
    (h : (r.attachAll entries).outcome = .ok attached) :
    (r.attachAll entries).log = r.logOf entries.keys := by
  induction entries generalizing r attached with
  | nil => rfl
  | cons entry entries ih =>
    obtain ⟨key, template⟩ := entry
    simp only [attachAll, Logged.outcome_bind] at h
    obtain ⟨armaments, harmaments, h⟩ := bind_eq_ok_iff.mp h
    obtain ⟨rest, hrest, -⟩ := bind_eq_ok_iff.mp h
    simp only [attachAll]
    rw [Logged.log_bind harmaments, Logged.log_bind hrest, ih hrest]
    exact congrArg _ (List.append_nil _)

end Resolver

/-- An order of all keys of a table in which each comes after all that its turrets name. -/
structure Table.Behind (table : Table) (order : List Text) : Prop where
  perm : order.Perm table.keys
  behind : ∀ before key after, order = before ++ key :: after →
    ∀ target, table.References key target → target ∈ before

/-- When all lists are attached, every template has been told of once, with its full list. -/
theorem Table.log_attachInherited {table attached : Table} (hn : table.keys.Nodup)
    (h : table.attachInherited.outcome = .ok attached) :
    ∃ order, table.Behind order ∧ table.attachInherited.log =
      order.map fun key => table.finishing (key, table.full key) := by
  let r := (Resolver.ofTable table).after table.keys
  have horder : r.InOrder table := (Resolver.finishes_in_order table table.keys).1
  have hagrees : r.memo.Agrees table :=
    ((Resolver.ready_ofTable table).after table.keys).memo_agrees
  obtain ⟨hall, -⟩ := Resolver.attachAll_eq_ok (Resolver.ready_ofTable table) h
  have htable : (Resolver.ofTable table).table = table := rfl
  obtain ⟨added, hmemo, hlog⟩ := Resolver.tells_after htable table.keys
  have hadded : r.memo = added := hmemo
  refine ⟨r.memo.keys, ⟨?_, horder.behind⟩, ?_⟩
  · refine (List.perm_ext_iff_of_nodup horder.nodup hn).mpr fun key => ⟨horder.known key, ?_⟩
    intro hk
    obtain ⟨entry, he, rfl⟩ := List.mem_map.mp hk
    obtain ⟨armaments, hc⟩ := hall entry he
    exact Resolver.mem_memo_of_answered hk hc
  · have hwhole : table.attachInherited.log = r.memo.map table.finishing := by
      rw [hadded, ← hlog]
      exact Resolver.log_attachAll h
    rw [hwhole, Entries.keys, List.map_map]
    refine List.map_congr_left fun entry he => ?_
    have hfull := full_of_collect (hagrees _ _ (Entries.get?_of_mem horder.nodup he))
    show table.finishing entry = table.finishing (entry.1, table.full entry.1)
    rw [hfull]

end EntityTable
