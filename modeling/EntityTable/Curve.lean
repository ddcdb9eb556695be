import EntityTable.Binary64

/-!
Linear maps from one range onto another, and the curves made of them.
-/

namespace EntityTable

/-- The value kept within two bounds given in either order. -/
def Binary64.clampBetween (a b value : Binary64) : Binary64 :=
  (value.max (a.min b)).min (a.max b)

/-- Maps `inLow` to `outLow` and `inHigh` to `outHigh`, and the rest along the line through them.
A range of one point sends what is not above it to `outLow` and everything else to `outHigh`. -/
def mapRange (value inLow inHigh outLow outHigh : Binary64) (clamp : Bool) : Binary64 :=
  if inHigh.eq inLow then
    if value.le inLow then outLow else outHigh
  else
    let factor := (value - inLow) / (inHigh - inLow)
    let mapped := outLow + factor * (outHigh - outLow)
    if clamp then Binary64.clampBetween outLow outHigh mapped else mapped

/-- A line between two knots, level outside them. -/
structure Curve where
  inLow : Binary64
  inHigh : Binary64
  outLow : Binary64
  outHigh : Binary64

def Curve.at (curve : Curve) (value : Binary64) : Binary64 :=
  mapRange value curve.inLow curve.inHigh curve.outLow curve.outHigh true

end EntityTable
