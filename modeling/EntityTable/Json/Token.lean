import EntityTable.Json
import EntityTable.Text.Integer

/-!
Lexemes of JSON text. A lexeme is as long as it can be, and one that is refused ends the list.
-/

namespace EntityTable.Json

/-- What can be wrong with JSON text. -/
inductive Fault
  | byteOrderMark
  | valueExpected
  | nameExpected
  | colonExpected
  | commaExpected
  | extraData
  | unterminatedString
  | controlCharacter
  | badEscape
  | badUnicodeEscape
  deriving DecidableEq

inductive Lexeme
  | objectOpen
  | objectClose
  | arrayOpen
  | arrayClose
  | colon
  | comma
  | string (t : Text)
  | scalar (v : Json)
  | brokenString (fault : Fault) (offset : Nat)
  | longInteger (digits : Nat)
  | unknown

structure Token where
  offset : Nat
  lexeme : Lexeme

namespace Lexeme

def isRefused : Lexeme → Bool
  | .brokenString .. | .longInteger _ | .unknown => true
  | _ => false

/-- One code point of a string as written: what it means and how many code points it takes, or
what is wrong and how many code points ahead. -/
inductive StringPart
  | closing
  | means (c : CodePoint) (length : Nat)
  | wrong (fault : Fault) (ahead : Nat)

def hexValue? (digits : Text) : Option Nat :=
  digits.foldl (fun n? c => do return 16 * (← n?) + (← c.hexDigit?)) (some 0)

def shortEscape? (c : CodePoint) : Option CodePoint :=
  if c = CodePoint.doubleQuote ∨ c = CodePoint.backslash ∨ c = '/' then some c
  else if c = 'b' then some (CodePoint.ofNat 0x08)
  else if c = 'f' then some (CodePoint.ofNat 0x0C)
  else if c = 'n' then some (CodePoint.ofNat 0x0A)
  else if c = 'r' then some (CodePoint.ofNat 0x0D)
  else if c = 't' then some (CodePoint.ofNat 0x09)
  else none

def joinSurrogates (high low : Nat) : CodePoint :=
  CodePoint.ofNat (0x10000 + (high - 0xD800) * 0x400 + (low - 0xDC00))

/-- Four hexadecimal digits after `\u`, which must not end the text. A high surrogate takes a low
one that is escaped right behind it; alone it stays as it is. -/
def unicodePart (rest : Text) : StringPart :=
  if (rest.drop 4).isEmpty then .wrong .badUnicodeEscape 1
  else match hexValue? (rest.take 4) with
    | none => .wrong .badUnicodeEscape 1
    | some n =>
      let alone := StringPart.means (CodePoint.ofNat n) 6
      let second := rest.drop 4
      if (CodePoint.ofNat n).isHighSurrogate ∧ !(second.drop 6).isEmpty ∧ second.take 2 = "\\u" then
        match hexValue? ((second.drop 2).take 4) with
        | none => .wrong .badUnicodeEscape 7
        | some m =>
          if (CodePoint.ofNat m).isLowSurrogate then .means (joinSurrogates n m) 12 else alone
      else alone

def partAt (c : CodePoint) (rest : Text) : StringPart :=
  if c = CodePoint.doubleQuote then .closing
  else if c.val < 0x20 then .wrong .controlCharacter 0
  else if c = CodePoint.backslash then
    match rest with
    | [] => .wrong .unterminatedString 0
    | d :: after =>
      if d = 'u' then unicodePart after
      else match shortEscape? d with
        | some e => .means e 2
        | none => .wrong .badEscape 0
  else .means c 1

/-- Reads a string from behind its opening quote, which stands at `opening`: its text and how many
code points it takes with the closing quote. -/
def stringBody (opening offset : Nat) : Text → Except (Fault × Nat) (Text × Nat)
  | [] => .error (.unterminatedString, opening)
  | c :: rest =>
    match partAt c rest with
    | .closing => .ok ([], 1)
    | .wrong .unterminatedString _ => .error (.unterminatedString, opening)
    | .wrong fault ahead => .error (fault, offset + ahead)
    | .means d length => do
      let (t, n) ← stringBody opening (offset + length) (rest.drop (length - 1))
      return (d :: t, n + length)
termination_by s => s.length
decreasing_by simp only [List.length_drop, List.length_cons]; omega

def quotedString (offset : Nat) (rest : Text) : Lexeme × Nat :=
  match stringBody offset (offset + 1) rest with
  | .ok (t, n) => (.string t, n)
  | .error (fault, at') => (.brokenString fault at', 0)

def wholeDigits (s : Text) : Text :=
  if s.head? = some (CodePoint.ofChar '0') then s.take 1 else s.takeWhile CodePoint.isAsciiDigit

/-- Digits behind a point. -/
def fractionDigits : Text → Text
  | [] => []
  | c :: rest => if c = '.' then rest.takeWhile CodePoint.isAsciiDigit else []

/-- An exponent and how many code points it takes. -/
def exponentPart? : Text → Option (Int × Nat)
  | [] => none
  | c :: rest =>
    let (negative, unsigned) := Text.signAndRest rest
    let digits := unsigned.takeWhile CodePoint.isAsciiDigit
    let mark := if rest.head? = unsigned.head? then 1 else 2
    if (c = 'e' ∨ c = 'E') ∧ !digits.isEmpty then
      let n := Text.digitsValue digits
      some (if negative then -(n : Int) else n, mark + digits.length)
    else none

/-- A number without fraction and exponent is an integer. -/
def number? (s : Text) : Option (Lexeme × Nat) :=
  let negative := s.head? = some (CodePoint.ofChar '-')
  let sign := if negative then 1 else 0
  let whole := wholeDigits (s.drop sign)
  let fraction := fractionDigits (s.drop (sign + whole.length))
  let point := if fraction.isEmpty then 0 else fraction.length + 1
  let length := sign + whole.length + point
  let exponent? := exponentPart? (s.drop length)
  if whole.isEmpty then none
  else if fraction.isEmpty ∧ exponent?.isNone then
    let n := Text.digitsValue whole
    if whole.length > Text.maxIntegerDigits then some (.longInteger whole.length, length)
    else some (.scalar (.int (if negative then -(n : Int) else n)), length)
  else
    let (exponent, exponentLength) := exponent?.getD (0, 0)
    let x := Binary64.ofDecimal negative (Text.digitsValue (whole ++ fraction))
      (exponent - fraction.length)
    some (.scalar (.float x), length + exponentLength)

def literals : List (Text × Json) :=
  [("null", .null), ("true", .bool true), ("false", .bool false), ("NaN", .float .nan),
    ("Infinity", .float (.infinity false)), ("-Infinity", .float (.infinity true))]

def literal? (s : Text) : Option (Lexeme × Nat) :=
  (literals.find? fun (word, _) => word.isPrefixOf s).map fun (word, v) => (.scalar v, word.length)

/-- The lexeme that starts with `c` and how many code points of `rest` belong to it. -/
def scan (offset : Nat) (c : CodePoint) (rest : Text) : Lexeme × Nat :=
  if c = CodePoint.doubleQuote then quotedString offset rest
  else if c.val = 0x7B then (.objectOpen, 0)
  else if c.val = 0x7D then (.objectClose, 0)
  else if c.val = 0x5B then (.arrayOpen, 0)
  else if c.val = 0x5D then (.arrayClose, 0)
  else if c = ':' then (.colon, 0)
  else if c = ',' then (.comma, 0)
  else match (literal? (c :: rest)).or (number? (c :: rest)) with
    | some (lexeme, length) => (lexeme, length - 1)
    | none => (.unknown, 0)

end Lexeme

def isBlank (c : CodePoint) : Bool :=
  c.val == 0x20 || c.val == 0x09 || c.val == 0x0A || c.val == 0x0D

def tokens (offset : Nat) : Text → List Token
  | [] => []
  | c :: rest =>
    if isBlank c then tokens (offset + 1) rest
    else
      let (lexeme, extra) := Lexeme.scan offset c rest
      if lexeme.isRefused then [⟨offset, lexeme⟩]
      else ⟨offset, lexeme⟩ :: tokens (offset + 1 + extra) (rest.drop extra)
termination_by s => s.length
decreasing_by all_goals simp only [List.length_drop, List.length_cons]; omega

end EntityTable.Json
