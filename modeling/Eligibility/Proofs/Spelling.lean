import Eligibility.Proofs.Nearest
import Eligibility.Proofs.RoundTrip
import Eligibility.Rule.Evaluation

namespace Eligibility
set_option autoImplicit true

/-- A number as the text of its decimal digits. -/
def Literal.quoteNumber : Literal → Literal
  | .number n => .text (toString n.toNat)
  | .text value => .text value

/-- The rule with quotes around all its numbers. -/
def Rule.quoteNumbers : Rule → Rule
  | .operand field comparator value => .operand field comparator value.quoteNumber
  | .operator connective left right => .operator connective left.quoteNumbers right.quoteNumbers

variable {text digits : List Char}

theorem skipBlanks_of_no_blank (h : ∀ c ∈ text, isBlank c = false) : skipBlanks text = text := by
  cases text with
  | nil => rfl
  | cons c rest => exact Stops.dropWhile (h c List.mem_cons_self)

theorem trimBlanks_of_no_blank (h : ∀ c ∈ text, isBlank c = false) : trimBlanks text = text := by
  have hreverse : ∀ c ∈ text.reverse, isBlank c = false := fun c hc => h c (List.mem_reverse.1 hc)
  rw [trimBlanks, skipBlanks_of_no_blank h, skipBlanks_of_no_blank hreverse, List.reverse_reverse]

theorem Decimal.read_digits (hne : digits ≠ []) (hd : ∀ c ∈ digits, c.isDigit = true) :
    read digits = some ⟨digitsValue digits, 0⟩ := by
  have hscan : scanDigits (digits ++ []) = (digits, []) := scanDigits_run hd trivial
  rw [List.append_nil] at hscan
  have hempty : digits.isEmpty = false := List.isEmpty_eq_false_iff.2 hne
  simp only [read, hscan, hempty, Bool.false_and, Bool.false_eq_true, if_false, readPower,
    Option.map_some, List.append_nil, List.length_nil]
  rfl

theorem Binary64.read_digits (hne : digits ≠ []) (hd : ∀ c ∈ digits, c.isDigit = true) :
    read digits = some (.signed false (.ofNat (digitsValue digits))) := by
  have hunsigned : read digits = readUnsigned false digits := by
    unfold read
    split
    · cases hd _ List.mem_cons_self
    · cases hd _ List.mem_cons_self
    · rfl
  rw [hunsigned, readUnsigned, Decimal.read_digits hne hd, ← Magnitude.ofDecimal_integer]

theorem Binary64.ofInt_natCast (n : Nat) : ofInt n = .signed false (.ofNat n) :=
  rfl

/-- The decimal digits of a number denote the double that the number is converted to. -/
theorem Binary64.read_decimalDigits (n : Nat) :
    read (trimBlanks (decimalDigits n)) = some (ofInt n) := by
  have hd : ∀ c ∈ decimalDigits n, c.isDigit = true := fun c => isDigit_of_mem_decimalDigits
  have hb : ∀ c ∈ decimalDigits n, isBlank c = false := fun c hc => not_isBlank_of_isDigit (hd c hc)
  rw [trimBlanks_of_no_blank hb, read_digits (decimalDigits_ne_nil n) hd, digitsValue_decimalDigits,
    ofInt_natCast]

theorem Binary64.isFinite_ofNat (h : n < 2 ^ 64) : (ofInt (n : Nat)).isFinite = true := by
  rw [ofInt_natCast]
  exact decide_eq_true (Magnitude.rank_ofNat_lt h)

theorem Literal.toBinary64_quoteNumber (value : Literal) :
    value.quoteNumber.toBinary64 = value.toBinary64 := by
  cases value with
  | number n =>
    have hdigits : (toString n.toNat).toList = decimalDigits n.toNat := String.toList_ofList
    simp only [quoteNumber, toBinary64, hdigits, Binary64.read_decimalDigits,
      Binary64.isFinite_ofNat n.toNat_lt, if_true]
  | text value => rfl

theorem Literal.toText_quoteNumber (value : Literal) :
    value.quoteNumber.toText = value.toText := by
  cases value with
  | number n => rfl
  | text value => rfl

theorem evaluateOperand_quoteNumber (field : String) (c : Comparator) (value : Literal)
    (record : Record) :
    evaluateOperand field c value.quoteNumber record = evaluateOperand field c value record := by
  simp only [evaluateOperand, value.toBinary64_quoteNumber, value.toText_quoteNumber]

/-- Quotes around its numbers change no answer of a rule: as a text and as a number, a run of
digits denotes the same double, one of those nearest to the number. -/
theorem Rule.evaluate_quoteNumbers :
    (∀ (rule : Rule) (record : Record),
      rule.quoteNumbers.evaluate record = rule.evaluate record) ∧
      ∀ n : UInt64, ∃ size : Magnitude,
        (Literal.number n).toBinary64 = .ok (.signed false size) ∧
        (Literal.text (toString n.toNat)).toBinary64 = .ok (.signed false size) ∧
        (Literal.number n).toText = toString n.toNat ∧
        size.rank < infinityRank ∧ RoundsToNearest (n.toNat * unitsPerOne) 1 size.rank := by
  constructor
  · intro rule record
    induction rule with
    | operand field comparator value => exact evaluateOperand_quoteNumber _ _ _ _
    | operator connective left right ihl ihr => simp only [quoteNumbers, evaluate, ihl, ihr]
  · intro n
    have hnumber : (Literal.number n).toBinary64 = .ok (.signed false (.ofNat n.toNat)) :=
      congrArg Except.ok (Binary64.ofInt_natCast n.toNat)
    have htext := (Literal.number n).toBinary64_quoteNumber.trans hnumber
    have hfinite := Magnitude.rank_ofNat_lt n.toNat_lt
    exact ⟨_, hnumber, htext, rfl, hfinite,
      Magnitude.nearest_roundsToNearest Nat.one_pos hfinite⟩

end Eligibility
