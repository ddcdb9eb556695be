import EntityTable.Text.Quoted

/-!
Reading an integer from text: optional sign, decimal digits, single underscores between
digits, blanks around.
-/

namespace EntityTable.Text

inductive IntegerFault
  | notInteger (text : Text)
  | tooManyDigits (count : Nat)

/-- Longer runs of digits are refused before they are converted. -/
def maxIntegerDigits : Nat := 4300

/-- A refused text is shown quoted, cut to this many code points. -/
def shownIntegerText : Nat := 200

def IntegerFault.message : IntegerFault → Text
  | .notInteger text =>
    concat ["invalid literal for int() with base 10: ", text.quoted.take shownIntegerText]
  | .tooManyDigits count =>
    concat ["Exceeds the limit (", ofNat maxIntegerDigits,
      " digits) for integer string conversion: value has ", ofNat count,
      " digits; use sys.set_int_max_str_digits() to increase the limit"]

/-- Beyond ASCII, blanks count as spaces, digits of any script as ASCII digits, and everything
else as a character that no integer holds. -/
def plainDigits (c : CodePoint) : CodePoint :=
  if c.isAscii then c
  else if c.isSpace then CodePoint.ofChar ' '
  else match c.decimalDigit? with
    | some d => CodePoint.ofNat (0x30 + d)
    | none => CodePoint.ofChar '?'

/-- Longest run of digits in which each underscore stands before a digit, without its
underscores, and what follows it. -/
def takeDigits : Text → Text × Text
  | [] => ([], [])
  | [c] => if c.isAsciiDigit then ([c], []) else ([], [c])
  | c :: d :: rest =>
    if c.isAsciiDigit then
      let (digits, after) := takeDigits (d :: rest)
      (c :: digits, after)
    else if c = '_' ∧ d.isAsciiDigit then takeDigits (d :: rest)
    else ([], c :: d :: rest)

def signAndRest : Text → Bool × Text
  | [] => (false, [])
  | c :: rest =>
    if c = '-' then (true, rest) else if c = '+' then (false, rest) else (false, c :: rest)

def readInteger (t : Text) : Except IntegerFault Int :=
  let (negative, unsigned) := signAndRest ((t.map plainDigits).dropWhile CodePoint.isAsciiBlank)
  match unsigned with
  | [] => .error (.notInteger t)
  | first :: _ =>
    let (digits, after) := takeDigits unsigned
    if !first.isAsciiDigit ∨ after.head? = some (CodePoint.ofChar '_') then
      .error (.notInteger t)
    else if digits.length > maxIntegerDigits then .error (.tooManyDigits digits.length)
    else if !after.all CodePoint.isAsciiBlank then .error (.notInteger t)
    else .ok (if negative then -(digitsValue digits : Int) else digitsValue digits)

end EntityTable.Text
