import EntityTable.Json.Token

/-!
Reading JSON text: one step per token over the stack of containers that are still open.
-/

namespace EntityTable.Json

inductive ReadError
  | malformed (fault : Fault) (offset : Nat)
  | integerTooLong (digits : Nat)
  deriving DecidableEq

def Fault.label : Fault → Text
  | .byteOrderMark => "Unexpected UTF-8 BOM (decode using utf-8-sig)"
  | .valueExpected => "Expecting value"
  | .nameExpected => "Expecting property name enclosed in double quotes"
  | .colonExpected => "Expecting ':' delimiter"
  | .commaExpected => "Expecting ',' delimiter"
  | .extraData => "Extra data"
  | .unterminatedString => "Unterminated string starting at"
  | .controlCharacter => "Invalid control character at"
  | .badEscape => "Invalid \\escape"
  | .badUnicodeEscape => "Invalid \\uXXXX escape"

/-- Lines and columns count from one, offsets from zero. -/
def ReadError.message (source : Text) : ReadError → Text
  | .malformed fault offset =>
    let before := source.take offset
    let line := before.count (CodePoint.ofChar '\n') + 1
    let column := (before.reverse.takeWhile (· ≠ CodePoint.ofChar '\n')).length + 1
    Text.concat [fault.label, ": line ", Text.ofNat line, " column ", Text.ofNat column, " (char ",
      Text.ofNat offset, ")"]
  | .integerTooLong digits => (Text.IntegerFault.tooManyDigits digits).message

namespace Reader

/-- A container that awaits a value: the items or members it has so far, the last one first. -/
inductive Frame
  | array (items : List Json)
  | member (members : List (Text × Json)) (key : Text)

/-- What may come next. Where `fresh`, the container just opened may close at once. -/
inductive Expected
  | value (fresh : Bool)
  | name (fresh : Bool) (members : List (Text × Json))
  | colon (members : List (Text × Json)) (key : Text)
  | complete (v : Json)

structure State where
  frames : List Frame
  expected : Expected

def start : State := ⟨[], .value false⟩

def object (members : List (Text × Json)) : Json := .object (Entries.ofList members.reverse)

/-- A value is expected; only a fresh array may close instead. -/
def valueStep (frames : List Frame) (fresh : Bool) (token : Token) : Except ReadError State :=
  match token.lexeme, fresh, frames with
  | .objectOpen, _, _ => .ok ⟨frames, .name true []⟩
  | .arrayOpen, _, _ => .ok ⟨.array [] :: frames, .value true⟩
  | .string t, _, _ => .ok ⟨frames, .complete (.string t)⟩
  | .scalar v, _, _ => .ok ⟨frames, .complete v⟩
  | .brokenString fault offset, _, _ => .error (.malformed fault offset)
  | .longInteger digits, _, _ => .error (.integerTooLong digits)
  | .arrayClose, true, .array _ :: outer => .ok ⟨outer, .complete (.array [])⟩
  | _, _, _ => .error (.malformed .valueExpected token.offset)

def nameStep (frames : List Frame) (fresh : Bool) (members : List (Text × Json)) (token : Token) :
    Except ReadError State :=
  match token.lexeme, fresh with
  | .string key, _ => .ok ⟨frames, .colon members key⟩
  | .brokenString fault offset, _ => .error (.malformed fault offset)
  | .objectClose, true => .ok ⟨frames, .complete (.object [])⟩
  | _, _ => .error (.malformed .nameExpected token.offset)

/-- A value is complete; it joins the container around it. -/
def endStep (frames : List Frame) (v : Json) (token : Token) : Except ReadError State :=
  match frames, token.lexeme with
  | [], _ => .error (.malformed .extraData token.offset)
  | .array items :: outer, .comma => .ok ⟨.array (v :: items) :: outer, .value false⟩
  | .array items :: outer, .arrayClose => .ok ⟨outer, .complete (.array (v :: items).reverse)⟩
  | .member members key :: outer, .comma => .ok ⟨outer, .name false ((key, v) :: members)⟩
  | .member members key :: outer, .objectClose =>
    .ok ⟨outer, .complete (object ((key, v) :: members))⟩
  | _, _ => .error (.malformed .commaExpected token.offset)

def step (state : State) (token : Token) : Except ReadError State :=
  match state.expected with
  | .value fresh => valueStep state.frames fresh token
  | .name fresh members => nameStep state.frames fresh members token
  | .colon members key =>
    match token.lexeme with
    | .colon => .ok ⟨.member members key :: state.frames, .value false⟩
    | _ => .error (.malformed .colonExpected token.offset)
  | .complete v => endStep state.frames v token

/-- The text is over at `offset`. -/
def finish (offset : Nat) (state : State) : Except ReadError Json :=
  match state.expected, state.frames with
  | .value _, _ => .error (.malformed .valueExpected offset)
  | .name .., _ => .error (.malformed .nameExpected offset)
  | .colon .., _ => .error (.malformed .colonExpected offset)
  | .complete v, [] => .ok v
  | .complete _, _ => .error (.malformed .commaExpected offset)

end Reader

def startsWithByteOrderMark (source : Text) : Bool :=
  match source with
  | [] => false
  | c :: _ => c.val == 0xFEFF

def read (source : Text) : Except ReadError Json := do
  if startsWithByteOrderMark source then throw (.malformed .byteOrderMark 0)
  let state ← (tokens 0 source).foldlM Reader.step Reader.start
  Reader.finish source.length state

end EntityTable.Json
