import Eligibility.Binary64.Rounding
import Eligibility.Text.Digits

namespace Eligibility

/-- A power of ten at the end of a number: nothing, or `e`, an optional sign and digits. -/
def readPower (input : List Char) : Option Int :=
  match input with
  | [] => some 0
  | mark :: rest =>
    if mark = 'e' ∨ mark = 'E' then
      match scanInt rest with
      | some (power, []) => some power
      | _ => none
    else none

/-- Reads digits with at most one point, at least one digit before or after it, and a power. -/
def Decimal.read (input : List Char) : Option Decimal :=
  let (whole, rest) := scanDigits input
  let (fraction, rest) :=
    match rest with
    | '.' :: rest => scanDigits rest
    | _ => ([], rest)
  if whole.isEmpty && fraction.isEmpty then none
  else (readPower rest).map fun power =>
    ⟨digitsValue (whole ++ fraction), power - fraction.length⟩

/-- Reads a size without its sign: a decimal, or one of the words for infinity and NaN in any
case. -/
def Binary64.readUnsigned (negative : Bool) (input : List Char) : Option Binary64 :=
  match Decimal.read input with
  | some decimal => some (.signed negative (.ofDecimal decimal))
  | none =>
    let word := String.ofList (input.map Char.toLower)
    if word = "inf" ∨ word = "infinity" then some (.signed negative .infinity)
    else if word = "nan" then some .nan
    else none

/-- Reads the decimal text of a double, rounded to the nearest one. -/
def Binary64.read : List Char → Option Binary64
  | '-' :: rest => readUnsigned true rest
  | '+' :: rest => readUnsigned false rest
  | input => readUnsigned false input

def Binary64.ofText? (text : String) : Option Binary64 :=
  read text.toList

end Eligibility
