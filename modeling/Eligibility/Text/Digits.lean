namespace Eligibility

/-- The ASCII digits at the front of the text, and what follows them. -/
def scanDigits (input : List Char) : List Char × List Char :=
  (input.takeWhile Char.isDigit, input.dropWhile Char.isDigit)

/-- The number that a run of decimal digits denotes. -/
def digitsValue (digits : List Char) : Nat :=
  Nat.ofDigitChars 10 digits 0

/-- The decimal digits of a number, without leading zeros. -/
def decimalDigits (n : Nat) : List Char :=
  Nat.toDigits 10 n

theorem digitsValue_decimalDigits (n : Nat) : digitsValue (decimalDigits n) = n :=
  Nat.ofDigitChars_toDigits (by decide) (by decide)

theorem isDigit_of_mem_decimalDigits {n : Nat} {c : Char} (h : c ∈ decimalDigits n) :
    c.isDigit = true :=
  Nat.isDigit_of_mem_toDigits (by decide) (by decide) h

theorem scanDigits_append (input : List Char) :
    (scanDigits input).1 ++ (scanDigits input).2 = input :=
  List.takeWhile_append_dropWhile

theorem length_of_scanDigits {input digits rest : List Char}
    (h : scanDigits input = (digits, rest)) : digits.length + rest.length = input.length := by
  rw [← List.length_append, ← scanDigits_append input, h]

/-- Takes in digits as long as the number fits into 64 bits. The first digit with which it does not,
and all that follow this digit, are left over. -/
def accumulate (value : Nat) : List Char → Nat × List Char
  | [] => (value, [])
  | digit :: rest =>
    let next := 10 * value + (digit.toNat - '0'.toNat)
    if next < UInt64.size then accumulate next rest else (value, digit :: rest)

/-- Reads at least one digit. -/
def scanNat (input : List Char) : Option (Nat × List Char) :=
  match scanDigits input with
  | ([], _) => none
  | (digits, rest) => some (digitsValue digits, rest)

theorem scanNat_shorter {input rest : List Char} {value : Nat}
    (h : scanNat input = some (value, rest)) : rest.length < input.length := by
  unfold scanNat at h
  split at h
  · cases h
  · rename_i digits _ hne hs
    cases h
    have := length_of_scanDigits hs
    have : digits.length ≠ 0 := fun h0 => hne (List.length_eq_zero_iff.1 h0)
    omega

/-- Reads an optional sign and at least one digit. -/
def scanInt (input : List Char) : Option (Int × List Char) :=
  match input with
  | '-' :: rest => (scanNat rest).map fun (value, rest) => (-(value : Int), rest)
  | '+' :: rest => (scanNat rest).map fun (value, rest) => ((value : Int), rest)
  | _ => (scanNat input).map fun (value, rest) => ((value : Int), rest)

theorem scanInt_shorter {input rest : List Char} {value : Int}
    (h : scanInt input = some (value, rest)) : rest.length < input.length := by
  unfold scanInt at h
  split at h <;> obtain ⟨⟨_, _⟩, hs, he⟩ := Option.map_eq_some_iff.1 h <;> cases he
  · exact Nat.lt_succ_of_lt (scanNat_shorter hs)
  · exact Nat.lt_succ_of_lt (scanNat_shorter hs)
  · exact scanNat_shorter hs

end Eligibility
