import EntityTable.Storage.Path
import EntityTable.Storage.SystemFault

/-!
Trees of regular files and directories, and what can be done to them. A place is the list of names
on the way from the root, which is always a directory. A name in the tree is the text of its bytes.
-/

namespace EntityTable

inductive FileNode
  | directory
  | file (bytes : List UInt8)
  deriving DecidableEq

abbrev Place := List Text

structure FileTree where
  nodes : List (Place × FileNode)
  workingDirectory : Place

namespace FileTree

def node? (tree : FileTree) (place : Place) : Option FileNode :=
  if place.isEmpty then some .directory else tree.nodes.lookup place

def isDirectory (tree : FileTree) (place : Place) : Bool := tree.node? place = some .directory

def putNode (node : FileNode) (place : Place) : List (Place × FileNode) → List (Place × FileNode)
  | [] => [(place, node)]
  | (p, n) :: rest => if p = place then (place, node) :: rest else (p, n) :: putNode node place rest

def put (tree : FileTree) (place : Place) (node : FileNode) : FileTree :=
  { tree with nodes := putNode node place tree.nodes }

def remove (tree : FileTree) (place : Place) : FileTree :=
  { tree with nodes := tree.nodes.filter fun entry => entry.1 ≠ place }

/-- How many bytes a name may have. -/
def maxNameLength : Nat := 255

/-- How many bytes a path as given may have. -/
def maxPathLength : Nat := 4095

/-- Follows names one after the other. All but the last must be directories; the last need not
exist. -/
def follow (tree : FileTree) (place : Place) : List Text → Except SystemError Place
  | [] => .ok place
  | name :: names =>
    match tree.node? place with
    | none => .error .noEntry
    | some (.file _) => .error .notDirectory
    | some .directory =>
      if name = [] ∨ name = "." then tree.follow place names
      else if maxNameLength < name.toExternal.length then .error .nameTooLong
      else tree.follow (Path.descend place name.external) names

/-- The place that a path as given leads to; a slash at its end asks for a directory. -/
def placeOf (tree : FileTree) (path : Text) : Except SystemError Place :=
  if path.isEmpty then .error .noEntry
  else if maxPathLength < path.toExternal.length then .error .nameTooLong
  else
    let start := if path.head? = some (CodePoint.ofChar '/') then [] else tree.workingDirectory
    tree.follow start (path.split '/')

/-- Uses the place that a path leads to. What is refused there is refused of the path. -/
def usePath {α : Type} (tree : FileTree) (path : Text) (use : Place → Except SystemError α) :
    Except SystemFault α :=
  match path.externalFault? with
  | some fault => .error (.notPath fault)
  | none => (tree.placeOf path >>= use).mapError (.answered · path)

def read (tree : FileTree) (path : Text) : Except SystemFault (List UInt8) :=
  tree.usePath path fun place =>
    match tree.node? place with
    | none => .error .noEntry
    | some .directory => .error .isDirectory
    | some (.file bytes) => .ok bytes

/-- A file can be put at the place of a file or at a free one. -/
def putFile (tree : FileTree) (bytes : List UInt8) (place : Place) : Except SystemError FileTree :=
  if tree.isDirectory place then .error .isDirectory else .ok (tree.put place (.file bytes))

def overwrite (tree : FileTree) (path : Text) (bytes : List UInt8) :
    Except SystemFault FileTree :=
  tree.usePath path (tree.putFile bytes)

def makeDirectory (tree : FileTree) (path : Text) : Except SystemFault FileTree :=
  tree.usePath path fun place =>
    if (tree.node? place).isSome then .error .alreadyThere else .ok (tree.put place .directory)

def leadsToDirectory (tree : FileTree) (path : Text) : Bool :=
  match tree.usePath path fun place => .ok (tree.isDirectory place) with
  | .ok found => found
  | .error _ => false

/-- A directory that is there already is as good as a new one. -/
def ensureDirectory (tree : FileTree) (path : Text) : FileTree × Except SystemFault Unit :=
  match tree.makeDirectory path with
  | .ok made => (made, .ok ())
  | .error fault => (tree, if tree.leadsToDirectory path then .ok () else .error fault)

/-- Makes a directory and those above it that are missing. What was made stays when a later step
is refused. The parts come last one first. -/
def ensureDirectories (tree : FileTree) (root : PathRoot) :
    List Text → FileTree × Except SystemFault Unit
  | [] => tree.ensureDirectory (Path.mk root []).toText
  | part :: above =>
    let path := (Path.mk root (part :: above).reverse).toText
    match tree.ensureDirectory path with
    | (_, .error (.answered .noEntry _)) =>
      match tree.ensureDirectories root above with
      | (made, .ok ()) => made.ensureDirectory path
      | refused => refused
    | result => result

def makeDirectories (tree : FileTree) (path : Path) : FileTree × Except SystemFault Unit :=
  tree.ensureDirectories path.root path.parts.reverse

/-- Names of temporary files for a target, in the order in which they are tried, all of one
length for the first 2 ^ 32. -/
def temporaryName (target : Text) (attempt : Nat) : Text :=
  Text.concat [".", target, ".", Text.hex 8 attempt, ".tmp"]

/-- A new empty file beside the target, under the first of its temporary names that is free; the
directory is found by its text alone. -/
def makeTemporary (tree : FileTree) (target : Path) : Except SystemFault (Place × FileTree) :=
  let directory := target.parent.locate tree.workingDirectory
  let place (attempt : Nat) : Place := directory ++ [temporaryName target.name attempt]
  let attempts := List.range (tree.nodes.length + 1)
  let isFree (n : Nat) : Bool := (tree.node? ((place n).map Text.external)).isNone
  let attempt := (attempts.find? isFree).getD 0
  let root : PathRoot := if target.root = .double then .double else .single
  tree.usePath (Path.mk root (place attempt)).toText fun temporary =>
    .ok (temporary, tree.put temporary (.file []))

/-- Moves a file to a path, over the file there if there is one. -/
def moveOver (tree : FileTree) (source : Place) (target : Path) : Except SystemFault FileTree :=
  match tree.node? source with
  | some (.file bytes) => do return (← tree.overwrite target.toText bytes).remove source
  | _ => .error (.answered .noEntry target.toText)

/-- Names below a directory. -/
def below (tree : FileTree) (place : Place) : List (Place × FileNode) :=
  tree.nodes.filterMap fun (p, node) =>
    if place.isPrefixOf p ∧ p ≠ place then some (p.drop place.length, node) else none

/-- What is new or different since an earlier tree, directories before what is in them. -/
def changedSince (tree before : FileTree) : List (Place × FileNode) :=
  tree.nodes.filter fun (place, node) => before.node? place ≠ some node

/-- Every place that a walk along a path may come by, from the root on. -/
def placesAlong (here : Place) (path : Path) : List Place :=
  let stops := (List.range (path.parts.length + 1)).map fun n =>
    ({ path with parts := path.parts.take n } : Path).locate here
  let places := stops.flatMap fun stop => (List.range stop.length).map fun n => stop.take (n + 1)
  (places.map fun place => place.map Text.external).eraseDups

end FileTree
end EntityTable
