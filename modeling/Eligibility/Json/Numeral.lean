import Eligibility.Binary64.Scaling
import Eligibility.Binary64.Shortest

namespace Eligibility

/-- A number as JSON text shows it: its digits, how many of them stand after the point, and the
power of ten behind the mark `e`. -/
structure Numeral where
  negative : Bool
  digits : Nat
  places : Nat
  exponent : Option Int
deriving DecidableEq

def Numeral.ofInt (value : Int) : Numeral :=
  ⟨value < 0, value.natAbs, 0, none⟩

/-- The integer that a numeral writes out; a point, an exponent or a minus before zero make it a
floating-point number instead. -/
def Numeral.integer? (n : Numeral) : Option Int :=
  if n.places ≠ 0 ∨ n.exponent ≠ none then none
  else if n.negative then if n.digits = 0 then none else some (-n.digits)
  else some n.digits

theorem Numeral.integer?_ofInt (value : Int) : (ofInt value).integer? = some value := by
  by_cases h : value < 0
  · have h0 : value.natAbs ≠ 0 := by omega
    have hv : -(value.natAbs : Int) = value := by omega
    simp only [ofInt, integer?, h, h0, hv, decide_true, ne_eq, not_true_eq_false, or_self,
      ↓reduceIte]
  · have hv : (value.natAbs : Int) = value := by omega
    simp only [ofInt, integer?, h, hv, decide_false, ne_eq, not_true_eq_false, or_self,
      Bool.false_eq_true, ↓reduceIte]

def Numeral.decimal (n : Numeral) : Decimal :=
  ⟨n.digits, n.exponent.getD 0 - n.places⟩

/-- The digits of a numeral with zeros in front, so that one stands before the point at least. -/
def Numeral.allDigits (n : Numeral) : List Char :=
  (decimalDigits n.digits).leftpad (n.places + 1) '0'

def Numeral.wholeDigits (n : Numeral) : List Char :=
  n.allDigits.take (n.allDigits.length - n.places)

def Numeral.fractionDigits (n : Numeral) : List Char :=
  n.allDigits.drop (n.allDigits.length - n.places)

/-- The significand and the power of ten that a numeral is read into. The significand has 64 bits:
a digit before the point that no longer fits is counted as a zero, like those that follow it there,
and the first such digit behind the point ends the reading of digits. -/
def Numeral.parts (n : Numeral) : Nat × Int :=
  let (whole, uncounted) := accumulate 0 n.wholeDigits
  let (significand, unread) := accumulate whole n.fractionDigits
  (significand, n.exponent.getD 0 + uncounted.length - (n.places - unread.length))

/-- The size that a numeral is read as, unless it is too large for a double. -/
def Numeral.size? (n : Numeral) : Option Magnitude :=
  Magnitude.ofParts? n.parts.1 n.parts.2

def Numeral.toBinary64? (n : Numeral) : Option Binary64 :=
  n.size?.map (.signed n.negative)

/-- Whether the number is too large to be read as a double. -/
def Numeral.overflows (n : Numeral) : Bool :=
  n.size?.isNone

/-- The layout of a double: all digits around the point while the first digit stands for a power of
ten from `10 ^ (-5)` to `10 ^ 15`, and an exponent elsewhere. -/
def Numeral.ofDecimal (negative : Bool) (d : Decimal) : Numeral :=
  let length := (decimalDigits d.significand).length
  let leading := d.exponent + length - 1
  if -5 ≤ leading ∧ leading ≤ 15 then
    match d.exponent with
    | .ofNat power => ⟨negative, d.significand * powerOfTen (power + 1), 1, none⟩
    | .negSucc power => ⟨negative, d.significand, power + 1, none⟩
  else ⟨negative, d.significand, length - 1, some leading⟩

def Numeral.writeExponent : Option Int → List Char
  | none => []
  | some power => 'e' :: (if power < 0 then '-' else '+') :: decimalDigits power.natAbs

def Numeral.write (n : Numeral) : List Char :=
  (if n.negative then ['-'] else []) ++ n.wholeDigits ++
    (if n.places = 0 then [] else '.' :: n.fractionDigits) ++ writeExponent n.exponent

/-- Reads the digits before the point; more than one of them do not start with a zero. -/
def Numeral.scanWhole (input : List Char) : Option (List Char × List Char) :=
  match scanDigits input with
  | ([], _) => none
  | ('0' :: _ :: _, _) => none
  | (digits, rest) => some (digits, rest)

theorem Numeral.scanWhole_shorter {input digits rest : List Char}
    (h : scanWhole input = some (digits, rest)) : rest.length < input.length := by
  unfold scanWhole at h
  split at h
  · cases h
  · cases h
  · rename_i hne _ hs
    cases h
    have := length_of_scanDigits hs
    have : digits.length ≠ 0 := fun h0 => hne (List.length_eq_zero_iff.1 h0)
    omega

def Numeral.scanFraction (input : List Char) : Option (List Char × List Char) :=
  match input with
  | '.' :: rest =>
    match scanDigits rest with
    | ([], _) => none
    | (digits, rest) => some (digits, rest)
  | _ => some ([], input)

theorem Numeral.length_le_of_scanFraction {input digits rest : List Char}
    (h : scanFraction input = some (digits, rest)) : rest.length ≤ input.length := by
  unfold scanFraction at h
  split at h
  · split at h
    · cases h
    · rename_i hs
      cases h
      have := length_of_scanDigits hs
      simp only [List.length_cons]
      omega
  · cases h
    exact Nat.le_refl _

def Numeral.scanExponent (input : List Char) : Option (Option Int × List Char) :=
  match input with
  | [] => some (none, [])
  | mark :: rest =>
    if mark = 'e' ∨ mark = 'E' then
      (scanInt rest).map fun (power, rest) => (some power, rest)
    else some (none, input)

theorem Numeral.length_le_of_scanExponent {input rest : List Char} {exponent : Option Int}
    (h : scanExponent input = some (exponent, rest)) : rest.length ≤ input.length := by
  unfold scanExponent at h
  split at h
  · cases h
    exact Nat.le_refl _
  · split at h
    · obtain ⟨⟨_, _⟩, hs, he⟩ := Option.map_eq_some_iff.1 h
      cases he
      exact Nat.le_succ_of_le (Nat.le_of_lt (scanInt_shorter hs))
    · cases h
      exact Nat.le_refl _

def Numeral.scanUnsigned (negative : Bool) (input : List Char) : Option (Numeral × List Char) :=
  match scanWhole input with
  | none => none
  | some (whole, rest) =>
    match scanFraction rest with
    | none => none
    | some (fraction, rest) =>
      match scanExponent rest with
      | none => none
      | some (exponent, rest) =>
        some (⟨negative, digitsValue (whole ++ fraction), fraction.length, exponent⟩, rest)

/-- Reads a number from the front of a JSON text. -/
def Numeral.scan (input : List Char) : Option (Numeral × List Char) :=
  match input with
  | '-' :: rest => scanUnsigned true rest
  | _ => scanUnsigned false input

theorem Numeral.scanUnsigned_shorter {negative : Bool} {input rest : List Char} {n : Numeral}
    (h : scanUnsigned negative input = some (n, rest)) : rest.length < input.length := by
  unfold scanUnsigned at h
  split at h
  · cases h
  rename_i whole afterWhole hw
  split at h
  · cases h
  rename_i fraction afterFraction hf
  split at h
  · cases h
  rename_i exponent afterExponent he
  simp only [Option.some.injEq, Prod.mk.injEq] at h
  obtain ⟨-, rfl⟩ := h
  have h1 := scanWhole_shorter hw
  have h2 := length_le_of_scanFraction hf
  have h3 := length_le_of_scanExponent he
  omega

theorem Numeral.scan_shorter {input rest : List Char} {n : Numeral}
    (h : scan input = some (n, rest)) : rest.length < input.length := by
  unfold scan at h
  split at h
  · exact Nat.lt_succ_of_lt (scanUnsigned_shorter h)
  · exact scanUnsigned_shorter h

end Eligibility
