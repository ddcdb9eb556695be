import EntityTable.Text

/-!
UTF-8. Decoding reports the first bytes that no code point is written with.
-/

namespace EntityTable.Text

inductive Utf8Reason
  | invalidStart
  | invalidContinuation
  | unexpectedEnd
  deriving DecidableEq

/-- `length` bytes from `position` on, the first of them `byte`, are at fault. -/
structure Utf8Fault where
  position : Nat
  length : Nat
  byte : Nat
  reason : Utf8Reason

def Utf8Fault.message (fault : Utf8Fault) : Text :=
  let reason : Text := match fault.reason with
    | .invalidStart => "invalid start byte"
    | .invalidContinuation => "invalid continuation byte"
    | .unexpectedEnd => "unexpected end of data"
  if fault.length = 1 then
    concat ["'utf-8' codec can't decode byte 0x", hex 2 fault.byte, " in position ",
      ofNat fault.position, ": ", reason]
  else
    concat ["'utf-8' codec can't decode bytes in position ", ofNat fault.position, "-",
      ofNat (fault.position + fault.length - 1), ": ", reason]

namespace Utf8

/-- What a lead byte says: how many bytes follow, between which bounds the first of them lies, and
its own share of the code point. -/
structure Lead where
  following : Nat
  least : Nat
  greatest : Nat
  payload : Nat

/-- The narrower bounds keep out overlong forms, surrogates and numbers past the last code point. -/
def lead? (b : Nat) : Option Lead :=
  if b < 0x80 then some ⟨0, 0x80, 0xBF, b⟩
  else if b < 0xC2 then none
  else if b < 0xE0 then some ⟨1, 0x80, 0xBF, b - 0xC0⟩
  else if b = 0xE0 then some ⟨2, 0xA0, 0xBF, 0⟩
  else if b = 0xED then some ⟨2, 0x80, 0x9F, 0xD⟩
  else if b < 0xF0 then some ⟨2, 0x80, 0xBF, b - 0xE0⟩
  else if b = 0xF0 then some ⟨3, 0x90, 0xBF, 0⟩
  else if b < 0xF4 then some ⟨3, 0x80, 0xBF, b - 0xF0⟩
  else if b = 0xF4 then some ⟨3, 0x80, 0x8F, 4⟩
  else none

/-- The code point that `count` more bytes complete, or why they do not and how many bytes were
good. -/
def follow (least greatest value good : Nat) :
    Nat → List UInt8 → Except (Utf8Reason × Nat) Nat
  | 0, _ => .ok value
  | _ + 1, [] => .error (.unexpectedEnd, good)
  | count + 1, b :: rest =>
    if least ≤ b.toNat ∧ b.toNat ≤ greatest then
      follow 0x80 0xBF (value * 0x40 + (b.toNat - 0x80)) (good + 1) count rest
    else .error (.invalidContinuation, good)

def decodeFrom (position : Nat) : List UInt8 → Except Utf8Fault Text
  | [] => .ok []
  | b :: rest =>
    match lead? b.toNat with
    | none => .error ⟨position, 1, b.toNat, .invalidStart⟩
    | some lead =>
      match follow lead.least lead.greatest lead.payload 1 lead.following rest with
      | .error (reason, good) => .error ⟨position, good, b.toNat, reason⟩
      | .ok n => do
        let t ← decodeFrom (position + 1 + lead.following) (rest.drop lead.following)
        return CodePoint.ofNat n :: t
termination_by bytes => bytes.length
decreasing_by simp only [List.length_drop, List.length_cons]; omega

def encodeCodePoint (c : CodePoint) : List UInt8 :=
  let n := c.val
  let tail (place : Nat) : UInt8 := UInt8.ofNat (0x80 + n / place % 0x40)
  if n < 0x80 then [UInt8.ofNat n]
  else if n < 0x800 then [UInt8.ofNat (0xC0 + n / 0x40), tail 1]
  else if n < 0x10000 then [UInt8.ofNat (0xE0 + n / 0x1000), tail 0x40, tail 1]
  else [UInt8.ofNat (0xF0 + n / 0x40000), tail 0x1000, tail 0x40, tail 1]

end Utf8

def ofUtf8 (bytes : List UInt8) : Except Utf8Fault Text := Utf8.decodeFrom 0 bytes

def toUtf8 (t : Text) : List UInt8 := t.flatMap Utf8.encodeCodePoint

end EntityTable.Text
