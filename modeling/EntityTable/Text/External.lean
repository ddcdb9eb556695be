import EntityTable.Text.Quoted
import EntityTable.Text.Utf8

/-!
Text outside the program, where the names of files and variables are bytes. A low surrogate from
U+DC80 to U+DCFF stands for a byte from 0x80 to 0xFF that is no UTF-8 in its place, so all bytes
have a text, and several texts can stand for the same bytes.
-/

namespace EntityTable

namespace CodePoint

def isSurrogate (c : CodePoint) : Bool := c.isHighSurrogate || c.isLowSurrogate

def isByteEscape (c : CodePoint) : Bool := 0xDC80 ≤ c.val && c.val ≤ 0xDCFF

def escapeOfByte (b : UInt8) : CodePoint := ofNat (0xDC00 + b.toNat)

def toExternal (c : CodePoint) : List UInt8 :=
  if c.isByteEscape then [UInt8.ofNat (c.val - 0xDC00)] else Text.Utf8.encodeCodePoint c

end CodePoint

/-- Surrogates that cannot be written: `count` of them from `position` on, with `first` in front. -/
structure SurrogateFault where
  position : Nat
  count : Nat
  first : CodePoint
  deriving DecidableEq

def SurrogateFault.message (fault : SurrogateFault) : Text :=
  if fault.count = 1 then
    Text.concat ["'utf-8' codec can't encode character ", Text.quoted [fault.first],
      " in position ", Text.ofNat fault.position, ": surrogates not allowed"]
  else
    Text.concat ["'utf-8' codec can't encode characters in position ", Text.ofNat fault.position,
      "-", Text.ofNat (fault.position + fault.count - 1), ": surrogates not allowed"]

/-- Why a text has no bytes outside. -/
inductive ExternalFault
  | surrogates (fault : SurrogateFault)
  | null
  deriving DecidableEq

def ExternalFault.message : ExternalFault → Text
  | .surrogates fault => fault.message
  | .null => "embedded null byte"

namespace Text

def toExternal (t : Text) : List UInt8 := t.flatMap CodePoint.toExternal

/-- Escapes a byte that starts no code point, and goes on behind it. -/
def ofExternal : List UInt8 → Text
  | [] => []
  | b :: rest =>
    match Utf8.lead? b.toNat with
    | none => CodePoint.escapeOfByte b :: ofExternal rest
    | some lead =>
      match Utf8.follow lead.least lead.greatest lead.payload 1 lead.following rest with
      | .error _ => CodePoint.escapeOfByte b :: ofExternal rest
      | .ok n => CodePoint.ofNat n :: ofExternal (rest.drop lead.following)
termination_by bytes => bytes.length
decreasing_by all_goals simp only [List.length_drop, List.length_cons]; omega

/-- The text that comes back from outside. Texts for the same bytes come back as one. -/
def external (t : Text) : Text := ofExternal t.toExternal

/-- The first surrogate that is refused, with the surrogates right behind it. -/
def surrogatesFrom? (refused : CodePoint → Bool) (position : Nat) : Text → Option SurrogateFault
  | [] => none
  | c :: rest =>
    if c.isSurrogate && refused c then
      some ⟨position, 1 + (rest.takeWhile CodePoint.isSurrogate).length, c⟩
    else surrogatesFrom? refused (position + 1) rest

/-- In a name the escapes of bytes can be written. -/
def nameFault? (t : Text) : Option SurrogateFault := surrogatesFrom? (!·.isByteEscape) 0 t

/-- Surrogates are found before a null, wherever they stand. -/
def externalFault? (t : Text) : Option ExternalFault :=
  (t.nameFault?.map .surrogates).or (if t.hasNull then some .null else none)

end Text
end EntityTable
