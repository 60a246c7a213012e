import Eligibility.Binary64.Rounding

namespace Eligibility

/-- The product of two finite sizes, rounded. -/
def Magnitude.mul (x y : Magnitude) : Magnitude :=
  .nearest (unitsOfRank x.rank * unitsOfRank y.rank) unitsPerOne

/-- The quotient of two finite sizes, rounded; the divisor is not zero. -/
def Magnitude.div (x y : Magnitude) : Magnitude :=
  .nearest (unitsOfRank x.rank * unitsPerOne) (unitsOfRank y.rank)

/-- The double nearest to a power of ten. -/
def Magnitude.tenTo (power : Nat) : Magnitude :=
  .ofNat (powerOfTen power)

/-- The highest power of ten that a double can be scaled by at once. -/
def maxTen : Nat := 308

/-- Divides by the highest power of ten as many times, or until nothing is left. -/
def Magnitude.divideByMaxTen (x : Magnitude) : (times : Nat) → Magnitude
  | 0 => x
  | times + 1 => if x = .zero then .zero else (x.div (tenTo maxTen)).divideByMaxTen times

/-- The double that a significand and a power of ten are read as: the significand is rounded first,
then its product with the power, or its quotient, is rounded again. Nothing where the product is
beyond the doubles. -/
def Magnitude.ofParts? (significand : Nat) : (exponent : Int) → Option Magnitude
  | .ofNat power =>
    if power ≤ maxTen then
      let product := (ofNat significand).mul (tenTo power)
      if product = .infinity then none else some product
    else if significand = 0 then some .zero
    else none
  | .negSucc power =>
    some (((ofNat significand).divideByMaxTen (power / maxTen)).div (tenTo (power % maxTen + 1)))

end Eligibility
