import Eligibility.Binary64.Rounding
import Eligibility.Text.Digits

namespace Eligibility

/-- The digits of the exact decimal expansion of a finite size, which is that many times
`10 ^ (-1074)`. -/
def Magnitude.expansion (m : Magnitude) : Nat :=
  unitsOfRank m.rank * Nat.pow 5 1074

/-- Whether reading the decimal gives back the size. -/
def Magnitude.readsBack (m : Magnitude) (d : Decimal) : Bool :=
  Magnitude.ofDecimal d = m

/-- The expansion without its last `dropped` digits, cut off or rounded up: the one of the two that
reads back; if both do, the nearer, and the even one on a tie. -/
def Magnitude.neighbour? (m : Magnitude) (dropped : Nat) : Option Decimal :=
  let step := powerOfTen dropped
  let low := m.expansion / step
  let candidate (significand : Nat) : Decimal := ⟨significand, (dropped : Int) - 1074⟩
  let lowFits := m.readsBack (candidate low)
  let highFits := m.readsBack (candidate (low + 1))
  if lowFits && highFits then
    let above := 2 * (m.expansion % step)
    if above < step ∨ (above = step ∧ low % 2 = 0) then some (candidate low)
    else some (candidate (low + 1))
  else if lowFits then some (candidate low)
  else if highFits then some (candidate (low + 1))
  else none

/-- Moves trailing zeros of the significand into the exponent. -/
def Decimal.stripped (significand : Nat) (exponent : Int) : Decimal :=
  if significand ≠ 0 ∧ significand % 10 = 0 then stripped (significand / 10) (exponent + 1)
  else ⟨significand, exponent⟩
termination_by significand
decreasing_by omega

/-- The decimal with the fewest digits that reads back as the given finite size, and of several such
decimals the nearest; the whole expansion if seventeen digits were not enough. -/
def Magnitude.shortest (m : Magnitude) : Decimal :=
  let length := (decimalDigits m.expansion).length
  let found := (List.range' 1 17).findSome? fun digits => m.neighbour? (length - digits)
  let chosen := found.getD ⟨m.expansion, -1074⟩
  if chosen.significand = 0 then ⟨0, 0⟩ else .stripped chosen.significand chosen.exponent

end Eligibility
