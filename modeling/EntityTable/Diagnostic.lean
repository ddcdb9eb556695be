import EntityTable.Text

/-!
Messages for authors: what is wrong, and in which template and field.
-/

namespace EntityTable

structure Diagnostic where
  detail : Text
  owner : Option Text
  field : Option Text
  deriving DecidableEq

namespace Diagnostic

/-- A field is named only behind the template it belongs to. -/
def text (d : Diagnostic) : Text :=
  match d.owner, d.field with
  | none, _ => d.detail
  | some owner, none => Text.concat ["'", owner, "': ", d.detail]
  | some owner, some field => Text.concat ["'", owner, "'.", field, ": ", d.detail]

def referenceCycle (cycle : List Text) : Diagnostic :=
  ⟨Text.concat ["turret reference cycle: ", Text.join " -> " cycle], cycle.head?, some "turrets"⟩

end Diagnostic
end EntityTable
