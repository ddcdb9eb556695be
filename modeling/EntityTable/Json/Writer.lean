import EntityTable.Binary64.Decimal
import EntityTable.Json
import EntityTable.Text.Integer

/-!
JSON text in printable ASCII, compact or with one item a line: as a whole, and piece by piece for a
file that keeps what came before a fault.
-/

namespace EntityTable

/-- The longest text that the machine can hold, which is shorter than its largest integer. Only
the indentation is measured against it, since the rest is of the size of what was read. -/
structure Memory where
  capacity : Nat
  isLt : capacity < 0x7FFFFFFFFFFFFFFF

namespace Json

inductive Layout
  | compact
  | indented (width : Nat)

namespace Layout

def lineBreak (level : Nat) : Layout → Text
  | .compact => []
  | .indented width =>
    CodePoint.ofChar '\n' :: List.replicate (width * level) (CodePoint.ofChar ' ')

def colon : Layout → Text
  | .compact => ":"
  | .indented _ => ": "

/-- Items one level further in than the brackets around them; an empty list stays on its line. -/
def enclose (layout : Layout) (level : Nat) (before after : Text) : List Text → Text
  | [] => before ++ after
  | item :: items =>
    let inner := layout.lineBreak (level + 1)
    Text.concat [before, inner, Text.join (CodePoint.ofChar ',' :: inner) (item :: items),
      layout.lineBreak level, after]

end Layout

def numberStyle : NumberStyle := ⟨-4, 16, 2, "Infinity", "NaN"⟩

/-- Code points past the basic plane are written as a surrogate pair. -/
def unicodeEscape (c : CodePoint) : Text :=
  if c.val < 0x10000 then Text.concat ["\\u", Text.hex 4 c.val]
  else
    let v := c.val - 0x10000
    Text.concat ["\\u", Text.hex 4 (0xD800 + v / 0x400), "\\u", Text.hex 4 (0xDC00 + v % 0x400)]

def escape (c : CodePoint) : Text :=
  if c = CodePoint.doubleQuote ∨ c = CodePoint.backslash then [CodePoint.backslash, c]
  else if 0x20 ≤ c.val ∧ c.val ≤ 0x7E then [c]
  else if c.val = 0x0A then "\\n"
  else if c.val = 0x0D then "\\r"
  else if c.val = 0x09 then "\\t"
  else if c.val = 0x08 then "\\b"
  else if c.val = 0x0C then "\\f"
  else unicodeEscape c

def renderString (t : Text) : Text :=
  CodePoint.doubleQuote :: t.flatMap escape ++ [CodePoint.doubleQuote]

mutual

def render (layout : Layout) (level : Nat) : Json → Text
  | .null => "null"
  | .bool true => "true"
  | .bool false => "false"
  | .int i => Text.ofInt i
  | .float x => numberStyle.render x
  | .string t => renderString t
  | .array items => layout.enclose level "[" "]" (renderItems layout (level + 1) items)
  | .object members =>
    layout.enclose level "\x7b" "\x7d" (renderMembers layout (level + 1) members)

def renderItems (layout : Layout) (level : Nat) : List Json → List Text
  | [] => []
  | v :: rest => v.render layout level :: renderItems layout level rest

def renderMembers (layout : Layout) (level : Nat) : List (Text × Json) → List Text
  | [] => []
  | (key, v) :: rest =>
    Text.concat [renderString key, layout.colon, v.render layout level] ::
      renderMembers layout level rest

end

def toText (v : Json) : Text := v.render .compact 0

/-! ### Piece by piece -/

/-- Why a value is not written to its end. -/
inductive WriteFault
  | notFinite (x : Binary64)
  | integerTooLong
  | lineTooLong
  | notHeld
  deriving DecidableEq

/-- A fault of the value, and not of the machine. -/
def WriteFault.isOfValue : WriteFault → Bool
  | .notFinite _ | .integerTooLong => true
  | .lineTooLong | .notHeld => false

/-- What is written at a time, or why it is not. -/
abbrev Piece := Except WriteFault Text

/-- A text has no more code points than this. -/
def maxTextLength : Nat := 0x7FFFFFFFFFFFFFFF

/-- The line break before the first item of a level. The one between its items, which is longer by
a comma, is made along with it. -/
def Layout.firstBreak (memory : Memory) (level : Nat) : Layout → Piece
  | .compact => .ok []
  | .indented width =>
    if maxTextLength < width * level then .error .lineTooLong
    else if memory.capacity < width * level + 2 then .error .notHeld
    else .ok (Layout.lineBreak level (.indented width))

/-- Items between brackets, of which the opening one and its line break come in pieces. -/
def Layout.enclosePieces (layout : Layout) (level : Nat) (empty : Text) (opening : List Piece)
    (after : Text) : List (List Piece) → List Piece
  | [] => [.ok empty]
  | item :: items =>
    let separator : Piece := .ok (CodePoint.ofChar ',' :: layout.lineBreak (level + 1))
    opening ++ item ++ items.flatMap (separator :: ·) ++ [.ok (layout.lineBreak level ++ after)]

def integerPiece (i : Int) : Piece :=
  if Text.maxIntegerDigits < (Text.ofNat i.natAbs).length then .error .integerTooLong
  else .ok (Text.ofInt i)

def floatPiece (x : Binary64) : Piece :=
  if x.isFinite then .ok (numberStyle.render x) else .error (.notFinite x)

mutual

/-- The bracket of a list goes with its line break, that of an object comes before it. -/
def pieces (memory : Memory) (layout : Layout) (level : Nat) : Json → List Piece
  | .int i => [integerPiece i]
  | .float x => [floatPiece x]
  | .array items =>
    layout.enclosePieces level "[]"
      [(layout.firstBreak memory (level + 1)).map (CodePoint.ofChar '[' :: ·)] "]"
      (piecesOfItems memory layout (level + 1) items)
  | .object members =>
    layout.enclosePieces level "\x7b\x7d" [.ok "\x7b", layout.firstBreak memory (level + 1)]
      "\x7d"
      (piecesOfMembers memory layout (level + 1) members)
  | v => [.ok (v.render layout level)]

def piecesOfItems (memory : Memory) (layout : Layout) (level : Nat) :
    List Json → List (List Piece)
  | [] => []
  | v :: rest => v.pieces memory layout level :: piecesOfItems memory layout level rest

def piecesOfMembers (memory : Memory) (layout : Layout) (level : Nat) :
    List (Text × Json) → List (List Piece)
  | [] => []
  | (key, v) :: rest =>
    (.ok (renderString key ++ layout.colon) :: v.pieces memory layout level) ::
      piecesOfMembers memory layout level rest

end

/-- Writes up to the first fault. -/
def writePieces : List Piece → Text × Except WriteFault Unit
  | [] => ([], .ok ())
  | .error fault :: _ => ([], .error fault)
  | .ok text :: rest =>
    let (further, ending) := writePieces rest
    (text ++ further, ending)

def write (memory : Memory) (layout : Layout) (v : Json) : Text × Except WriteFault Unit :=
  writePieces (v.pieces memory layout 0)

end Json
end EntityTable
