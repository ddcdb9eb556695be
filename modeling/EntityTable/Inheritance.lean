import EntityTable.Failure
import EntityTable.Logged
import EntityTable.Template

/-!
Turrets that name a template carry its armaments. A depth-first walk along the references
collects them, remembers every finished template, and reports the first reference that is
unknown or leads back into the walk.

The depth of recursion is counted and not limited: an interpreter that stops at a depth of its own
refuses some chains of references that end here, and so it does with deep nesting where values are
read, copied or written.
-/

namespace EntityTable

/-- The armament as carried by a turret of another template. -/
def Armament.inherit (a : Armament) (turret : Int) : Armament := { a with turret := some turret }

/-- Full armament lists of the templates that are finished, in the order of completion. -/
abbrev Memo := Entries (List Armament)

/-- How far a resolver is: what it has finished and the templates it is on its way through, which
are `way`. -/
structure Progress (way : List Text) where
  memo : Memo
  visiting : List Text
  visiting_eq : visiting = way

namespace Progress

variable {way : List Text} {key : Text}

def enter (p : Progress way) (key : Text) : Progress (way ++ [key]) :=
  ⟨p.memo, p.visiting ++ [key], by rw [p.visiting_eq]⟩

def leave (p : Progress (way ++ [key])) : Progress way :=
  ⟨p.memo, p.visiting.dropLast, by rw [p.visiting_eq, List.dropLast_concat]⟩

def remember (p : Progress way) (key : Text) (armaments : List Armament) : Progress way :=
  { p with memo := p.memo ++ [(key, armaments)] }

end Progress

/-- A walk ends on the way on which it began, also where it fails. -/
structure Walk (way : List Text) where
  progress : Progress way
  log : List LogEvent
  outcome : Except Failure (List Armament)

namespace Walk

variable {way : List Text}

/-- Armaments inherited through the turrets from position `index` on, where `visit` walks a
referenced template. -/
def inherited (visit : Progress way → Text → Walk way) (table : Table) (owner : Text) :
    Nat → List Turret → Progress way → Walk way
  | _, [], progress => ⟨progress, [], .ok []⟩
  | index, turret :: turrets, progress =>
    match turret.reference with
    | none => inherited visit table owner (index + 1) turrets progress
    | some target =>
      if table.contains target then
        let first := visit progress target
        match first.outcome with
        | .error _ => first
        | .ok armaments =>
          let rest := inherited visit table owner (index + 1) turrets first.progress
          ⟨rest.progress, first.log ++ rest.log,
            rest.outcome.map fun more => armaments.map (·.inherit index) ++ more⟩
      else ⟨progress, [], .error (.unknownReference owner index target)⟩

/-- The template is left in any case; if all went well it is finished, its own armaments before
the inherited ones. -/
def complete {key : Text} (template : Template) (walk : Walk (way ++ [key])) : Walk way :=
  match walk.outcome with
  | .error failure => ⟨walk.progress.leave, walk.log, .error failure⟩
  | .ok inherited =>
    let armaments := template.armaments ++ inherited
    ⟨walk.progress.leave.remember key armaments,
      walk.log ++ [.resolved key armaments.length inherited.length], .ok armaments⟩

end Walk

namespace Table

/-- How many keys are still off the walk; it bounds the depth of what is left. -/
def unvisited (table : Table) (visiting : List Text) : Nat :=
  (table.keys.filter fun key => !visiting.contains key).length

theorem unvisited_lt {table : Table} {visiting : List Text} {key : Text}
    (fresh : ¬visiting.contains key) (known : key ∈ table.keys) :
    table.unvisited (visiting ++ [key]) < table.unvisited visiting := by
  have narrowed : table.keys.filter (fun k => !(visiting ++ [key]).contains k) =
      (table.keys.filter fun k => !visiting.contains k).filter fun k => k ≠ key := by
    simp only [List.filter_filter]
    exact List.filter_congr fun k _ => by
      by_cases hk : k = key <;> simp [hk, List.contains_eq_mem]
  unfold unvisited
  rw [narrowed, List.length_filter_lt_length_iff_exists]
  exact ⟨key, by simpa using ⟨known, by simpa using fresh⟩, by simp⟩

/-- Walks from a template, which is on its way while the templates behind it are walked. -/
def walk (table : Table) {way : List Text} (progress : Progress way) (key : Text) : Walk way :=
  match progress.memo.get? key with
  | some armaments => ⟨progress, [], .ok armaments⟩
  | none =>
    if _fresh : progress.visiting.contains key then
      ⟨progress, [],
        .error (.referenceCycle (progress.visiting.dropWhile (· ≠ key) ++ [key]))⟩
    else
      match _known : table.get? key with
      | none => ⟨progress, [], .error (.unknownKey key)⟩
      | some template =>
        (Walk.inherited (fun further target => table.walk further target)
          table key 0 template.turrets (progress.enter key)).complete template
termination_by table.unvisited way
decreasing_by
  rw [progress.visiting_eq] at _fresh
  exact unvisited_lt _fresh (Entries.mem_keys_of_get? _known)

end Table

/-- Answers one question after another over the same table and keeps what it has learnt. -/
structure Resolver where
  table : Table
  memo : Memo
  visiting : List Text

namespace Resolver

def ofTable (table : Table) : Resolver := ⟨table, [], []⟩

/-- Full armament list of a template: its own armaments, then the inherited ones in the order of
the turrets. -/
def resolve (r : Resolver) (key : Text) : Resolver × Logged Failure (List Armament) :=
  let walk := r.table.walk ⟨r.memo, r.visiting, rfl⟩ key
  (⟨r.table, walk.progress.memo, walk.progress.visiting⟩, ⟨walk.log, walk.outcome⟩)

/-- The templates of `entries` with their full armament lists. -/
def attachAll (r : Resolver) : Table → Logged Failure Table
  | [] => pure []
  | (key, template) :: entries => do
    let (r', resolving) := r.resolve key
    let armaments ← resolving
    let attached ← r'.attachAll entries
    return (key, { template with armaments }) :: attached

end Resolver

def Table.attachInherited (table : Table) : Logged Failure Table :=
  (Resolver.ofTable table).attachAll table

end EntityTable
