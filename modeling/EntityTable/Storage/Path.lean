import EntityTable.Text

/-!
File paths in their plain form: no empty parts, no `.` parts, no slash at the end. Parts that lead
upward stay, since what they lead to depends on the tree.
-/

namespace EntityTable

/-- Exactly two slashes in front are a root of their own. -/
inductive PathRoot
  | relative
  | single
  | double
  deriving DecidableEq

structure Path where
  root : PathRoot
  parts : List Text
  deriving DecidableEq

namespace Path

def rootOf (t : Text) : PathRoot :=
  match (t.takeWhile (· = CodePoint.ofChar '/')).length with
  | 0 => .relative
  | 2 => .double
  | _ => .single

def ofText (t : Text) : Path :=
  ⟨rootOf t, (t.split '/').filter fun part => part ≠ [] ∧ part ≠ "."⟩

instance : Coe String Path := ⟨fun s => ofText s⟩

def toText (p : Path) : Text :=
  let parts := Text.join "/" p.parts
  match p.root with
  | .relative => if p.parts.isEmpty then "." else parts
  | .single => Text.concat ["/", parts]
  | .double => Text.concat ["//", parts]

/-- A path without parts is its own parent. -/
def parent (p : Path) : Path := { p with parts := p.parts.dropLast }

def name (p : Path) : Text := p.parts.getLast?.getD []

/-- One step along a path by its text alone; above the root is the root. -/
def descend (place : List Text) (part : Text) : List Text :=
  if part = ".." then place.dropLast else place ++ [part]

/-- One step upward by the text alone. Above the root is the root; a relative path leads further up
once it has no part left to take back. -/
def ascend (p : Path) : Path :=
  if p.root = .relative ∧ p.parts.getLast?.getD ".." = ".." then
    { p with parts := p.parts ++ [(".." : Text)] }
  else p.parent

def stopsFrom (reached : Path) : List Text → List Path
  | [] => []
  | part :: parts =>
    if part = ".." then stopsFrom reached.ascend parts
    else
      let next : Path := { reached with parts := reached.parts ++ [part] }
      next :: stopsFrom next parts

/-- Where the parts of a path lead one after the other, except those that lead upward. -/
def stops (p : Path) : List Path :=
  stopsFrom ⟨if p.root = .relative then .relative else .single, []⟩ p.parts

/-- The place a path leads to from `here`, by its text alone. -/
def locate (here : List Text) (p : Path) : List Text :=
  p.parts.foldl descend (if p.root = .relative then here else [])

end Path
end EntityTable
