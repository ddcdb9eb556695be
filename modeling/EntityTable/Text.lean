/-!
Text as a list of Unicode code points. Lone surrogates are code points too, so this is wider
than `String`, whose characters are the scalar values only.
-/

namespace EntityTable

structure CodePoint where
  val : Nat
  isLt : val < 0x110000
  deriving DecidableEq

namespace CodePoint

def ofChar (c : Char) : CodePoint :=
  ⟨c.toNat, by
    have h := c.valid
    simp only [UInt32.isValidChar, Nat.isValidChar] at h
    change c.val.toNat < _
    omega⟩

instance : Coe Char CodePoint := ⟨ofChar⟩

/-- Numbers past the last code point stand for the replacement character. -/
def ofNat (n : Nat) : CodePoint :=
  if h : n < 0x110000 then ⟨n, h⟩ else ⟨0xFFFD, by decide⟩

def singleQuote : CodePoint := ⟨0x27, by decide⟩

def doubleQuote : CodePoint := ⟨0x22, by decide⟩

def backslash : CodePoint := ⟨0x5C, by decide⟩

def isAscii (c : CodePoint) : Bool := c.val < 0x80

def isAsciiDigit (c : CodePoint) : Bool := 0x30 ≤ c.val && c.val ≤ 0x39

def isHighSurrogate (c : CodePoint) : Bool := 0xD800 ≤ c.val && c.val ≤ 0xDBFF

def isLowSurrogate (c : CodePoint) : Bool := 0xDC00 ≤ c.val && c.val ≤ 0xDFFF

/-- ASCII capitals become small letters, everything else stays. -/
def toAsciiLower (c : CodePoint) : CodePoint :=
  if 0x41 ≤ c.val ∧ c.val ≤ 0x5A then ofNat (c.val + 0x20) else c

/-- Value of a hexadecimal digit, in either case. -/
def hexDigit? (c : CodePoint) : Option Nat :=
  if c.isAsciiDigit then some (c.val - 0x30)
  else if 0x41 ≤ c.val ∧ c.val ≤ 0x46 then some (c.val - 0x41 + 10)
  else if 0x61 ≤ c.val ∧ c.val ≤ 0x66 then some (c.val - 0x61 + 10)
  else none

end CodePoint

abbrev Text := List CodePoint

namespace Text

def ofString (s : String) : Text := s.toList.map CodePoint.ofChar

instance : Coe String Text := ⟨ofString⟩

def ofNat (n : Nat) : Text := (Nat.toDigits 10 n).map CodePoint.ofChar

def ofInt (i : Int) : Text :=
  if i < 0 then CodePoint.ofChar '-' :: ofNat i.natAbs else ofNat i.natAbs

/-- Lower-case hexadecimal, padded with zeros to `width` digits. -/
def hex (width n : Nat) : Text :=
  let digits := (Nat.toDigits 16 n).map CodePoint.ofChar
  List.replicate (width - digits.length) (CodePoint.ofChar '0') ++ digits

def concat (parts : List Text) : Text := parts.flatten

def join (separator : Text) (parts : List Text) : Text := parts.intersperse separator |>.flatten

/-- Lexicographic order by code point. -/
def le : Text → Text → Bool
  | [], _ => true
  | _ :: _, [] => false
  | a :: s, b :: t => a.val < b.val || (a.val = b.val && le s t)

/-- The pieces between the separators; a text without any is its own only piece. -/
def split (separator : CodePoint) : Text → List Text
  | [] => [[]]
  | c :: rest =>
    if c = separator then [] :: split separator rest
    else match split separator rest with
      | [] => [[c]]
      | piece :: pieces => (c :: piece) :: pieces

/-- `afterReturn` says that the code point before was a `\r`, already written as `\n`. -/
def unifyNewlinesFrom (afterReturn : Bool) : Text → Text
  | [] => []
  | c :: rest =>
    if c = '\n' ∧ afterReturn then unifyNewlinesFrom false rest
    else if c = '\r' then CodePoint.ofChar '\n' :: unifyNewlinesFrom true rest
    else c :: unifyNewlinesFrom false rest

/-- Every `\r\n` and every `\r` alone becomes `\n`. -/
def unifyNewlines (t : Text) : Text := unifyNewlinesFrom false t

/-- Value of a run of digits in base ten; what is no ASCII digit counts as zero. -/
def digitsValue (t : Text) : Nat := t.foldl (fun n c => 10 * n + (c.val - 0x30)) 0

def toAsciiLower (t : Text) : Text := t.map CodePoint.toAsciiLower

def hasNull (t : Text) : Bool := t.any (·.val == 0)

end Text
end EntityTable
