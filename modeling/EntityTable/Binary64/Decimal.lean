import EntityTable.Binary64

/-!
Decimal text of binary64 numbers: the fewest digits that read back to the same number, and of
those the digits nearest to it.
-/

namespace EntityTable

/-- `digits * 10 ^ exponent`. -/
structure Decimal where
  digits : Nat
  exponent : Int
  deriving DecidableEq

namespace Decimal

/-- Rank of the number that the decimal reads as. -/
def rank (d : Decimal) : Nat :=
  match Binary64.ofDecimal false d.digits d.exponent with
  | .nan => 0
  | .number _ rank _ => rank

/-- Digits are counted in groups of sixteen, so that long numbers take few divisions. -/
def digitCount (n : Nat) : Nat :=
  if n < 10000000000000000 then (Nat.toDigits 10 n).length
  else digitCount (n / 10000000000000000) + 16

/-- Every magnitude is an integer over `10 ^ exactPlaces`. -/
def exactPlaces : Nat := 1074

/-- Numerator of the exact decimal value of a rank over `10 ^ exactPlaces`. -/
def exactDigits (rank : Nat) : Nat := Binary64.unitsOf rank * Nat.pow 5 exactPlaces

/-- The two neighbours of `value` among the multiples of `10 ^ dropped`, the nearer one first; of
two that are equally near the even one is first. -/
def neighbours (value dropped : Nat) : List Decimal :=
  let grid := Nat.pow 10 dropped
  let below := value / grid
  let exponent := (dropped : Int) - exactPlaces
  if Binary64.roundHalfEven value grid = below then [⟨below, exponent⟩, ⟨below + 1, exponent⟩]
  else [⟨below + 1, exponent⟩, ⟨below, exponent⟩]

/-- The nearest decimal of the fewest digits that reads back as the rank. Seventeen digits always
do, and the exact value is the last resort that needs no argument. -/
def shortest (rank : Nat) : Decimal :=
  let value := exactDigits rank
  let length := digitCount value
  let reading (p : Nat) := (neighbours value (length - (p + 1))).find? fun d => d.rank = rank
  ((List.range 17).findSome? reading).getD ⟨value, -exactPlaces⟩

end Decimal

/-- How a number is laid out. Decimal exponents from `leastPositional` up to, not including,
`pastPositional` are written with a point among the digits. -/
structure NumberStyle where
  leastPositional : Int
  pastPositional : Int
  exponentDigits : Nat
  infinity : Text
  nan : Text

namespace NumberStyle

def dropTrailingZeros (digits : Text) : Text :=
  (digits.reverse.dropWhile (· = CodePoint.ofChar '0')).reverse

/-- Digits with a point after the first `whole` of them; zeros fill what is missing, and a digit
stands on either side of the point. -/
def positional (digits : Text) (whole : Int) : Text :=
  let zeros (n : Nat) : Text := List.replicate n (CodePoint.ofChar '0')
  if whole ≤ 0 then Text.concat ["0.", zeros (-whole).toNat, digits]
  else
    let n := whole.toNat
    let fraction := digits.drop n
    Text.concat [digits.take n, zeros (n - digits.length), ".",
      if fraction.isEmpty then "0" else fraction]

def scientific (style : NumberStyle) (digits : Text) (exponent : Int) : Text :=
  let magnitude := Text.ofNat exponent.natAbs
  Text.concat [digits.take 1, if digits.length ≤ 1 then "" else ".", digits.drop 1, "e",
    if exponent < 0 then "-" else "+",
    List.replicate (style.exponentDigits - magnitude.length) (CodePoint.ofChar '0'), magnitude]

def magnitude (style : NumberStyle) (rank : Nat) : Text :=
  if rank = 0 then "0.0"
  else if rank = Binary64.infinityRank then style.infinity
  else
    let d := Decimal.shortest rank
    let all := Text.ofNat d.digits
    let exponent := d.exponent + all.length - 1
    let digits := dropTrailingZeros all
    if style.leastPositional ≤ exponent ∧ exponent < style.pastPositional then
      positional digits (exponent + 1)
    else style.scientific digits exponent

def render (style : NumberStyle) : Binary64 → Text
  | .nan => style.nan
  | .number negative rank _ =>
    if negative then CodePoint.ofChar '-' :: style.magnitude rank else style.magnitude rank

end NumberStyle

namespace Binary64

/-- Numbers in messages and reports. -/
def plainStyle : NumberStyle := ⟨-4, 16, 2, "inf", "nan"⟩

def toText (x : Binary64) : Text := plainStyle.render x

end Binary64
end EntityTable
