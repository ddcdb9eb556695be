import EntityTable.Binary64
import EntityTable.Entries

/-!
JSON values. Objects keep their order and integers stay apart from floating-point numbers.
-/

namespace EntityTable

inductive Json
  | null
  | bool (b : Bool)
  | int (i : Int)
  | float (x : Binary64)
  | string (t : Text)
  | array (items : List Json)
  | object (members : List (Text × Json))

namespace Json

/-- Name of a value's type in messages. -/
def typeName : Json → Text
  | .null => "NoneType"
  | .bool _ => "bool"
  | .int _ => "int"
  | .float _ => "float"
  | .string _ => "str"
  | .array _ => "list"
  | .object _ => "dict"

/-- Null, false, zero and whatever is empty count as false. -/
def isTruthy : Json → Bool
  | .null => false
  | .bool b => b
  | .int i => i != 0
  | .float x => !x.eq 0
  | .string t => !t.isEmpty
  | .array items => !items.isEmpty
  | .object members => !members.isEmpty

mutual

/-- Every object's members in the order of their keys, at every level. -/
def sortKeys : Json → Json
  | .array items => .array (sortKeysItems items)
  | .object members => .object ((sortKeysMembers members).mergeSort fun a b => a.1.le b.1)
  | v => v

def sortKeysItems : List Json → List Json
  | [] => []
  | v :: rest => v.sortKeys :: sortKeysItems rest

def sortKeysMembers : List (Text × Json) → List (Text × Json)
  | [] => []
  | (key, v) :: rest => (key, v.sortKeys) :: sortKeysMembers rest

end

mutual

/-- The NaNs and infinities inside a value, in the order in which they are written. -/
def nonFinite : Json → List Binary64
  | .float x => if x.isFinite then [] else [x]
  | .array items => nonFiniteItems items
  | .object members => nonFiniteMembers members
  | _ => []

def nonFiniteItems : List Json → List Binary64
  | [] => []
  | v :: rest => v.nonFinite ++ nonFiniteItems rest

def nonFiniteMembers : List (Text × Json) → List Binary64
  | [] => []
  | (_, v) :: rest => v.nonFinite ++ nonFiniteMembers rest

end

end Json
end EntityTable
