import EntityTable.Binary64.Decimal
import EntityTable.Json
import EntityTable.Text.Quoted

/-!
JSON values as messages show them.
-/

namespace EntityTable.Json

mutual

def display : Json → Text
  | .null => "None"
  | .bool true => "True"
  | .bool false => "False"
  | .int i => Text.ofInt i
  | .float x => x.toText
  | .string t => t.quoted
  | .array items => Text.concat ["[", Text.join ", " (displayItems items), "]"]
  | .object members => Text.concat ["\x7b", Text.join ", " (displayMembers members), "\x7d"]

def displayItems : List Json → List Text
  | [] => []
  | v :: rest => v.display :: displayItems rest

def displayMembers : List (Text × Json) → List Text
  | [] => []
  | (key, v) :: rest => Text.concat [key.quoted, ": ", v.display] :: displayMembers rest

end

end EntityTable.Json
