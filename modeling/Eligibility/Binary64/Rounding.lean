import Eligibility.Binary64.Basic

namespace Eligibility

/-- The number of ranks for which the distance to the next one is the same. -/
def binadeSize : Nat := 0x10000000000000

/-- The size with the given rank, in multiples of the least positive double. -/
def unitsOfRank (rank : Nat) : Nat :=
  let exponent := rank / binadeSize - 1
  (rank - exponent * binadeSize) <<< exponent

/-- The highest rank whose size is at most the given number of units. -/
def floorRank (units : Nat) : Nat :=
  let exponent := units.log2 - 52
  exponent * binadeSize + units >>> exponent

/-- The rank whose size is nearest to `numerator / denominator` units, an even one on a tie. -/
def nearestRank (numerator denominator : Nat) : Nat :=
  let low := floorRank (numerator / denominator)
  let middle := (unitsOfRank low + unitsOfRank (low + 1)) * denominator
  if 2 * numerator < middle ∨ (2 * numerator = middle ∧ low % 2 = 0) then low else low + 1

/-- The double nearest to `numerator / denominator` units; ranks above the last finite one
stand for infinity. -/
def Magnitude.nearest (numerator denominator : Nat) : Magnitude :=
  ⟨min (nearestRank numerator denominator) infinityRank, Nat.min_le_right _ _⟩

/-- The least positive double is one part in `2 ^ 1074`. -/
def unitsPerOne : Nat := 1 <<< 1074

def powerOfTen (exponent : Nat) : Nat :=
  Nat.pow 10 exponent

def Magnitude.ofNat (n : Nat) : Magnitude :=
  .nearest (n * unitsPerOne) 1

def Binary64.ofInt (value : Int) : Binary64 :=
  .signed (value < 0) (.ofNat value.natAbs)

/-- The number `significand * 10 ^ exponent`. -/
structure Decimal where
  significand : Nat
  exponent : Int
deriving DecidableEq

/-- The double nearest to a decimal. Powers of ten beyond the range of a double are cut off first,
so that no exponent makes the calculation large. -/
def Magnitude.ofDecimal (d : Decimal) : Magnitude :=
  match d.exponent with
  | .ofNat power =>
    if d.significand = 0 then .zero
    else if 342 ≤ power then .infinity
    else .nearest (d.significand * powerOfTen power * unitsPerOne) 1
  | .negSucc power =>
    if d.significand.log2 + 1100 < 3 * (power + 1) then .zero
    else .nearest (d.significand * unitsPerOne) (powerOfTen (power + 1))

end Eligibility
