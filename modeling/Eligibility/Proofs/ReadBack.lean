import Eligibility.Json.Decoding
import Eligibility.Proofs.DecimalRounding

namespace Eligibility
set_option autoImplicit true

variable {numerator denominator factor : Nat} {m : Magnitude} {d d' : Decimal}

/-- Rounding looks at the quotient alone. -/
theorem nearestRank_mul_right (hf : 0 < factor) :
    nearestRank (numerator * factor) (denominator * factor) =
      nearestRank numerator denominator := by
  have hquotient : numerator * factor / (denominator * factor) = numerator / denominator :=
    Nat.mul_div_mul_right _ _ hf
  unfold nearestRank
  simp only [hquotient, ← Nat.mul_assoc, Nat.mul_lt_mul_right hf, Nat.mul_right_cancel_iff hf]

theorem Magnitude.nearest_mul_right (hf : 0 < factor) :
    nearest (numerator * factor) (denominator * factor) = nearest numerator denominator := by
  simp only [nearest, nearestRank_mul_right hf]

/-- Two decimals of the same value are converted alike. -/
theorem Magnitude.ofDecimal_congr
    (h : d.numerator * d'.denominator = d'.numerator * d.denominator) :
    ofDecimal d = ofDecimal d' := by
  rw [ofDecimal_eq_nearest, ofDecimal_eq_nearest]
  calc
    nearest (d.numerator * unitsPerOne) d.denominator =
        nearest (d.numerator * unitsPerOne * d'.denominator) (d.denominator * d'.denominator) :=
      (nearest_mul_right d'.denominator_pos).symm
    _ = nearest (d'.numerator * unitsPerOne * d.denominator) (d'.denominator * d.denominator) := by
      rw [Nat.mul_right_comm, h, Nat.mul_right_comm, Nat.mul_comm d.denominator]
    _ = nearest (d'.numerator * unitsPerOne) d'.denominator :=
      nearest_mul_right d.denominator_pos

/-- A power of ten may stand in the significand or in the exponent. -/
theorem Magnitude.ofDecimal_shift (significand power : Nat) (exponent : Int) :
    ofDecimal ⟨significand * 10 ^ power, exponent⟩ = ofDecimal ⟨significand, exponent + power⟩ := by
  have hpowers : power + exponent.toNat + (-(exponent + power)).toNat =
      (exponent + power).toNat + (-exponent).toNat := by omega
  apply ofDecimal_congr
  simp only [Decimal.numerator, Decimal.denominator]
  rw [Nat.mul_assoc significand, ← Nat.pow_add, Nat.mul_assoc, ← Nat.pow_add, hpowers, Nat.pow_add,
    Nat.mul_assoc]

/-- With as many decimal places as the unit has binary ones, the powers of two cancel. -/
theorem Magnitude.ofDecimal_places (significand : Nat) (hunit : unitsPerOne = 1 <<< places) :
    ofDecimal ⟨significand, -places⟩ = nearest significand (5 ^ places) := by
  have hten : 5 ^ places * 1 <<< places = 10 ^ places := by
    rw [Nat.one_shiftLeft]
    exact (Nat.mul_pow 5 2 places).symm
  have hnumerator : Decimal.numerator ⟨significand, -places⟩ = significand := by
    have hzero : (-(places : Int)).toNat = 0 := by omega
    rw [Decimal.numerator, hzero, Nat.pow_zero, Nat.mul_one]
  have hdenominator : Decimal.denominator ⟨significand, -places⟩ = 10 ^ places := by
    rw [Decimal.denominator, Int.neg_neg, Int.toNat_natCast]
  have hpos : 0 < 1 <<< places := by
    rw [Nat.one_shiftLeft]
    exact Nat.two_pow_pos places
  rw [ofDecimal_eq_nearest, hnumerator, hdenominator, hunit, ← hten, nearest_mul_right hpos]

/-- The places of the expansion; as a variable, they do not make the large powers be evaluated. -/
theorem exists_places : ∃ places : Nat, unitsPerOne = 1 <<< places ∧ (-1074 : Int) = -places ∧
    ∀ m : Magnitude, m.expansion = unitsOfRank m.rank * 5 ^ places := by
  have hunit : unitsPerOne = 1 <<< 1074 := by rw [unitsPerOne]
  have hexponent : (-1074 : Int) = -(1074 : Nat) := rfl
  have hexpansion (m : Magnitude) : m.expansion = unitsOfRank m.rank * Nat.pow 5 1074 := by
    rw [Magnitude.expansion]
  generalize 1074 = places at hunit hexponent hexpansion
  exact ⟨places, hunit, hexponent, hexpansion⟩

theorem Magnitude.ofDecimal_expansion (m : Magnitude) : ofDecimal ⟨m.expansion, -1074⟩ = m := by
  obtain ⟨places, hunit, hexponent, hexpansion⟩ := exists_places
  have hpos : 0 < 5 ^ places := Nat.pow_pos (by decide)
  calc
    ofDecimal ⟨m.expansion, -1074⟩ =
        nearest (unitsOfRank m.rank * 5 ^ places) (1 * 5 ^ places) := by
      rw [hexpansion, hexponent, ofDecimal_places _ hunit, Nat.one_mul]
    _ = m := by rw [nearest_mul_right hpos, nearest_unitsOfRank]

theorem Magnitude.ofDecimal_of_readsBack (h : m.readsBack d = true) : ofDecimal d = m :=
  of_decide_eq_true h

/-- Only neighbours that read back are chosen. -/
theorem Magnitude.ofDecimal_neighbour (h : m.neighbour? dropped = some d) : ofDecimal d = m := by
  unfold neighbour? at h
  dsimp only at h
  split at h
  case isTrue hboth =>
    obtain ⟨hlow, hhigh⟩ := Bool.and_eq_true_iff.1 hboth
    split at h
    · cases h
      exact ofDecimal_of_readsBack hlow
    · cases h
      exact ofDecimal_of_readsBack hhigh
  case isFalse =>
    split at h
    case isTrue hlow =>
      cases h
      exact ofDecimal_of_readsBack hlow
    case isFalse =>
      split at h
      case isTrue hhigh =>
        cases h
        exact ofDecimal_of_readsBack hhigh
      case isFalse => cases h

theorem Magnitude.ofDecimal_stripped (significand : Nat) (exponent : Int) :
    ofDecimal (.stripped significand exponent) = ofDecimal ⟨significand, exponent⟩ := by
  fun_induction Decimal.stripped significand exponent with
  | case1 significand exponent h ih =>
    have htens : significand / 10 * 10 ^ 1 = significand :=
      Nat.div_mul_cancel (Nat.dvd_of_mod_eq_zero h.2)
    rw [ih, ← Int.natCast_one, ← ofDecimal_shift, htens]
  | case2 => rfl

theorem Magnitude.ofDecimal_zero (exponent : Int) : ofDecimal ⟨0, exponent⟩ = ofDecimal ⟨0, 0⟩ := by
  apply ofDecimal_congr
  simp only [Decimal.numerator, Nat.zero_mul]

theorem Magnitude.ofDecimal_of_zero (exponent : Int) : ofDecimal ⟨0, exponent⟩ = zero := by
  rw [ofDecimal_zero]
  decide

/-- The shortest digits of a size read back as this size. -/
theorem Magnitude.ofDecimal_shortest (m : Magnitude) : ofDecimal m.shortest = m := by
  have hchosen (found : Option Decimal) (h : ∀ d ∈ found, ofDecimal d = m) :
      ofDecimal (found.getD ⟨m.expansion, -1074⟩) = m := by
    cases found with
    | none => exact m.ofDecimal_expansion
    | some d => exact h d rfl
  have hwritten (d : Decimal) (h : ofDecimal d = m) : ofDecimal
      (if d.significand = 0 then ⟨0, 0⟩ else .stripped d.significand d.exponent) = m := by
    split
    case isTrue hzero =>
      rw [← ofDecimal_zero d.exponent, ← hzero]
      exact h
    case isFalse =>
      rw [ofDecimal_stripped]
      exact h
  apply hwritten
  apply hchosen
  intro d hd
  obtain ⟨digits, -, hneighbour⟩ := List.exists_of_findSome?_eq_some hd
  exact ofDecimal_neighbour hneighbour

/-- The layout of a number does not change its value. -/
theorem Numeral.ofDecimal_decimal (negative : Bool) (d : Decimal) :
    Magnitude.ofDecimal (ofDecimal negative d).decimal = Magnitude.ofDecimal d := by
  obtain ⟨significand, exponent⟩ := d
  unfold ofDecimal
  dsimp only
  split
  case isTrue =>
    cases exponent with
    | ofNat power =>
      have hpower : (0 - (1 : Nat) : Int) + (power + 1 : Nat) = power := by omega
      exact (Magnitude.ofDecimal_shift significand (power + 1) _).trans
        (congrArg (fun exponent => Magnitude.ofDecimal ⟨significand, exponent⟩) hpower)
    | negSucc power =>
      have hpower : (0 - (power + 1 : Nat) : Int) = .negSucc power := by omega
      exact congrArg (fun exponent => Magnitude.ofDecimal ⟨significand, exponent⟩) hpower
  case isFalse =>
    have hlength : 0 < (decimalDigits significand).length :=
      List.length_pos_iff.2 Nat.toDigits_ne_nil
    have hpower : (exponent + (decimalDigits significand).length - 1 : Int) -
        ((decimalDigits significand).length - 1 : Nat) = exponent := by omega
    exact congrArg (fun exponent => Magnitude.ofDecimal ⟨significand, exponent⟩) hpower

theorem Numeral.ofDecimal_negative (negative : Bool) (d : Decimal) :
    (ofDecimal negative d).negative = negative := by
  obtain ⟨significand, exponent⟩ := d
  unfold ofDecimal
  dsimp only
  split
  case isTrue =>
    cases exponent with
    | ofNat => rfl
    | negSucc => rfl
  case isFalse => rfl

end Eligibility
