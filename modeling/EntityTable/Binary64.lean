import EntityTable.Text

/-!
IEEE 754 binary64 numbers and their arithmetic, every operation rounded to nearest with ties to
even. Magnitudes are held by rank, their position among all magnitudes from zero to infinity, and
valued in units of the least positive number, so all of it is integer arithmetic.
-/

namespace EntityTable

namespace Binary64

/-- Mantissas of normal numbers run from this number to one below its double. -/
def mantissaBase : Nat := Nat.pow 2 52

def infinityRank : Nat := 2047 * mantissaBase

/-- One is this many units. -/
def unitsPerOne : Nat := Nat.pow 2 1074

end Binary64

inductive Binary64
  | nan
  | number (negative : Bool) (rank : Nat) (rank_le : rank ≤ Binary64.infinityRank)
  deriving DecidableEq

namespace Binary64

/-- Power of two that one step of the mantissa weighs, in units. -/
def exponentOf (rank : Nat) : Nat := rank / mantissaBase - 1

def mantissaOf (rank : Nat) : Nat := rank - exponentOf rank * mantissaBase

/-- Magnitude of a rank in units. -/
def unitsOf (rank : Nat) : Nat := mantissaOf rank * Nat.pow 2 (exponentOf rank)

/-- Nearest integer to a quotient, the even one of two that are equally near. -/
def roundHalfEven (numerator denominator : Nat) : Nat :=
  let quotient := numerator / denominator
  let twice := 2 * (numerator % denominator)
  if twice < denominator then quotient
  else if denominator < twice then quotient + 1
  else quotient + quotient % 2

/-- Rank of the magnitude nearest to a quotient of units; what rounds past the largest finite
magnitude is infinite. -/
def nearestRank (numerator denominator : Nat) : Nat :=
  let quotient := numerator / denominator
  let exponent := if quotient < 2 * mantissaBase then 0 else quotient.log2 - 52
  let mantissa := roundHalfEven numerator (denominator * Nat.pow 2 exponent)
  min (exponent * mantissaBase + mantissa) infinityRank

def nearest (negative : Bool) (numerator denominator : Nat) : Binary64 :=
  .number negative (nearestRank numerator denominator) (Nat.min_le_right _ _)

def zero (negative : Bool) : Binary64 := .number negative 0 (Nat.zero_le _)

def infinity (negative : Bool) : Binary64 := .number negative infinityRank (Nat.le_refl _)

def isFinite : Binary64 → Bool
  | .nan => false
  | .number _ rank _ => rank < infinityRank

def isNaN : Binary64 → Bool
  | .nan => true
  | .number .. => false

/-- Value of a finite number in units, with its sign. -/
def signedUnits (negative : Bool) (rank : Nat) : Int :=
  if negative then -(unitsOf rank : Int) else unitsOf rank

def ofInt (i : Int) : Binary64 := nearest (i < 0) (i.natAbs * unitsPerOne) 1

/-- An integer that rounds past the largest finite magnitude has no value. -/
def ofInt? (i : Int) : Option Binary64 :=
  let x := ofInt i
  if x.isFinite then some x else none

/-- Powers of ten beyond this carry every nonzero decimal of one digit past the finite range. -/
def decimalReach : Nat := 400

/-- Nearest number to `digits * 10 ^ exponent`. -/
def ofDecimal (negative : Bool) (digits : Nat) (exponent : Int) : Binary64 :=
  if digits = 0 then zero negative
  else if (decimalReach : Int) < exponent then infinity negative
  else if exponent < -((decimalReach + digits.log2 : Nat) : Int) then zero negative
  else if 0 ≤ exponent then nearest negative (digits * Nat.pow 10 exponent.toNat * unitsPerOne) 1
  else nearest negative (digits * unitsPerOne) (Nat.pow 10 (-exponent).toNat)

instance (n : Nat) : OfNat Binary64 n := ⟨ofInt n⟩

instance : OfScientific Binary64 :=
  ⟨fun digits negativeExponent exponent =>
    ofDecimal false digits (if negativeExponent then -(exponent : Int) else exponent)⟩

def neg : Binary64 → Binary64
  | .nan => .nan
  | .number negative rank h => .number (!negative) rank h

/-- A sum of zero is negative only if both terms are. -/
def add : Binary64 → Binary64 → Binary64
  | .number s r hr, .number t q hq =>
    if r = infinityRank then
      if q = infinityRank ∧ s ≠ t then .nan else .number s r hr
    else if q = infinityRank then .number t q hq
    else
      let sum := signedUnits s r + signedUnits t q
      if sum = 0 then zero (s && t) else nearest (sum < 0) sum.natAbs 1
  | _, _ => .nan

def sub (x y : Binary64) : Binary64 := add x (neg y)

def mul : Binary64 → Binary64 → Binary64
  | .number s r _, .number t q _ =>
    if r = infinityRank ∨ q = infinityRank then
      if r = 0 ∨ q = 0 then .nan else infinity (s != t)
    else nearest (s != t) (unitsOf r * unitsOf q) unitsPerOne
  | _, _ => .nan

def div : Binary64 → Binary64 → Binary64
  | .number s r _, .number t q _ =>
    if r = infinityRank then
      if q = infinityRank then .nan else infinity (s != t)
    else if q = infinityRank then zero (s != t)
    else if q = 0 then
      if r = 0 then .nan else infinity (s != t)
    else nearest (s != t) (unitsOf r * unitsPerOne) (unitsOf q)
  | _, _ => .nan

instance : Neg Binary64 := ⟨neg⟩
instance : Add Binary64 := ⟨add⟩
instance : Sub Binary64 := ⟨sub⟩
instance : Mul Binary64 := ⟨mul⟩
instance : Div Binary64 := ⟨div⟩

/-- Place on the number line; both zeros are at 0. -/
def place (negative : Bool) (rank : Nat) : Int := if negative then -(rank : Int) else rank

/-- A NaN is not below, above or equal to anything. -/
def lt : Binary64 → Binary64 → Bool
  | .number s r _, .number t q _ => place s r < place t q
  | _, _ => false

def le : Binary64 → Binary64 → Bool
  | .number s r _, .number t q _ => place s r ≤ place t q
  | _, _ => false

/-- Equality of values: the zeros are equal and a NaN equals nothing. -/
def eq : Binary64 → Binary64 → Bool
  | .number s r _, .number t q _ => place s r == place t q
  | _, _ => false

/-- The first number, unless the second is below it. -/
def min (x y : Binary64) : Binary64 := if y.lt x then y else x

/-- The first number, unless the second is above it. -/
def max (x y : Binary64) : Binary64 := if x.lt y then y else x

/-- The number nearest to the ratio of a circle's circumference to its diameter. -/
def pi : Binary64 := nearest false (884279719003555 * unitsPerOne) (Nat.pow 2 48)

/-- Integer part, toward zero, of a finite number. -/
def truncate? : Binary64 → Option Int
  | .nan => none
  | .number negative rank _ =>
    if rank < infinityRank then
      let whole := unitsOf rank / unitsPerOne
      some (if negative then -(whole : Int) else whole)
    else none

/-- Nearest multiple of `10 ^ -places` to the exact value, ties to even, as a number again. -/
def roundTo (places : Nat) : Binary64 → Binary64
  | .nan => .nan
  | .number negative rank h =>
    if rank < infinityRank then
      let scaled := roundHalfEven (unitsOf rank * Nat.pow 10 places) unitsPerOne
      nearest negative (scaled * unitsPerOne) (Nat.pow 10 places)
    else .number negative rank h

end Binary64
end EntityTable
