import Eligibility.Proofs.JsonTokens
import Eligibility.Proofs.ReadBack

namespace Eligibility
set_option autoImplicit true

variable {x y : Magnitude} {n : Numeral} {digits : List Char} {value : Nat}

theorem unitsPerOne_le_tenTo (power : Nat) :
    unitsPerOne ≤ unitsOfRank (Magnitude.tenTo power).rank := by
  have hone : 1 ≤ powerOfTen power := Nat.pow_pos (by decide)
  have hrank := Magnitude.rank_ofNat_mono hone
  have hunits := unitsOfRank_strictMono.monotone hrank
  rwa [unitsOfRank_ofNat_small (by decide), Nat.one_mul] at hunits

theorem Magnitude.mul_tenTo_zero (x : Magnitude) : x.mul (tenTo 0) = x := by
  have hone : unitsOfRank (tenTo 0).rank = 1 * unitsPerOne := unitsOfRank_ofNat_small (by decide)
  calc
    x.mul (tenTo 0) = nearest (unitsOfRank x.rank * unitsPerOne) (1 * unitsPerOne) := by
      rw [mul, hone, Nat.one_mul]
    _ = x := by rw [nearest_mul_right unitsPerOne_pos, nearest_unitsOfRank]

/-- A quotient by one or more is no larger. -/
theorem Magnitude.rank_div_le (h : unitsPerOne ≤ unitsOfRank y.rank) :
    (x.div y).rank ≤ x.rank := by
  have hpos : 0 < unitsOfRank y.rank := Nat.lt_of_lt_of_le (by decide) h
  calc
    (x.div y).rank ≤
        (nearest (unitsOfRank x.rank * unitsOfRank y.rank) (unitsOfRank y.rank)).rank :=
      rank_nearest_mono (Nat.mul_le_mul_left _ h) _
    _ = (nearest (unitsOfRank x.rank * unitsOfRank y.rank) (1 * unitsOfRank y.rank)).rank := by
      rw [Nat.one_mul]
    _ = x.rank := by rw [nearest_mul_right hpos, nearest_unitsOfRank]

theorem Magnitude.rank_divideByMaxTen_le (x : Magnitude) (times : Nat) :
    (x.divideByMaxTen times).rank ≤ x.rank := by
  induction times generalizing x with
  | zero => exact Nat.le_refl _
  | succ times ih =>
    unfold divideByMaxTen
    split
    · exact Nat.zero_le _
    · exact (ih _).trans (rank_div_le (unitsPerOne_le_tenTo maxTen))

theorem Magnitude.ofParts?_ofNat (h : power ≤ maxTen) :
    ofParts? significand (.ofNat power) =
      if (ofNat significand).mul (tenTo power) = infinity then none
      else some ((ofNat significand).mul (tenTo power)) := by
  simp only [ofParts?, if_pos h]

theorem Magnitude.ofParts?_negSucc (significand power : Nat) :
    ofParts? significand (.negSucc power) = some (((ofNat significand).divideByMaxTen
      (power / maxTen)).div (tenTo (power % maxTen + 1))) := rfl

theorem Magnitude.ne_infinity_iff : x ≠ infinity ↔ x.rank < infinityRank := by
  have hle := x.rank_le
  cases x with
  | mk rank hrank =>
    simp only [infinity, ne_eq, mk.injEq]
    omega

/-- What a significand of 64 bits and a power of ten are read as is finite. -/
theorem Magnitude.rank_ofParts?_lt (hs : significand < 2 ^ 64)
    (h : ofParts? significand exponent = some x) : x.rank < infinityRank := by
  cases exponent with
  | ofNat power =>
    by_cases hpower : power ≤ maxTen
    · rw [ofParts?_ofNat hpower] at h
      split at h
      case isTrue => cases h
      case isFalse hne =>
        cases h
        exact ne_infinity_iff.1 hne
    · simp only [ofParts?, if_neg hpower] at h
      split at h
      · cases h
        decide
      · cases h
  | negSucc power =>
    rw [ofParts?_negSucc, Option.some.injEq] at h
    rw [← h]
    calc
      _ ≤ ((ofNat significand).divideByMaxTen (power / maxTen)).rank :=
        rank_div_le (unitsPerOne_le_tenTo _)
      _ ≤ (ofNat significand).rank := rank_divideByMaxTen_le _ _
      _ < infinityRank := rank_ofNat_lt hs

/-- An integer of 64 bits is read as the double that it is converted to. -/
theorem Magnitude.ofParts?_integer (hs : significand < 2 ^ 64) :
    ofParts? significand (.ofNat 0) = some (ofNat significand) := by
  rw [ofParts?_ofNat (Nat.zero_le _), mul_tenTo_zero,
    if_neg (ne_infinity_iff.2 (rank_ofNat_lt hs))]

theorem accumulate_lt (h : value < 2 ^ 64) : (accumulate value digits).1 < 2 ^ 64 := by
  induction digits generalizing value with
  | nil => exact h
  | cons digit rest ih =>
    simp only [accumulate]
    split
    case isTrue hnext => exact ih hnext
    case isFalse => exact h

theorem le_ofDigitChars (digits : List Char) (value : Nat) :
    value ≤ Nat.ofDigitChars 10 digits value := by
  induction digits generalizing value with
  | nil => exact Nat.le_refl _
  | cons digit rest ih =>
    rw [Nat.ofDigitChars_cons]
    exact Nat.le_trans (by omega) (ih _)

/-- Digits that fit into 64 bits are all taken in. -/
theorem accumulate_of_lt (h : Nat.ofDigitChars 10 digits value < 2 ^ 64) :
    accumulate value digits = (Nat.ofDigitChars 10 digits value, []) := by
  induction digits generalizing value with
  | nil => rfl
  | cons digit rest ih =>
    rw [Nat.ofDigitChars_cons] at h ⊢
    have hnext := Nat.lt_of_le_of_lt (le_ofDigitChars rest _) h
    have hfits : 10 * value + (digit.toNat - '0'.toNat) < UInt64.size := hnext
    rw [accumulate, if_pos hfits, ih h]

theorem Numeral.parts_lt (n : Numeral) : n.parts.1 < 2 ^ 64 :=
  accumulate_lt (accumulate_lt (Nat.two_pow_pos 64))

/-- A numeral whose digits fit into 64 bits loses none of them. -/
theorem Numeral.parts_of_lt (h : n.digits < 2 ^ 64) :
    n.parts = (n.digits, n.decimal.exponent) := by
  have hall : Nat.ofDigitChars 10 n.fractionDigits (Nat.ofDigitChars 10 n.wholeDigits 0) =
      n.digits := by
    rw [← Nat.ofDigitChars_append, wholeDigits_append]
    exact n.digitsValue_allDigits
  have hwhole := Nat.lt_of_le_of_lt (le_ofDigitChars n.fractionDigits _) (hall ▸ h)
  have hfraction := accumulate_of_lt (hall ▸ h)
  simp only [parts, accumulate_of_lt hwhole, hfraction, hall, decimal, List.length_nil,
    Int.natCast_zero, Int.add_zero, Int.sub_zero]

/-- Every number that does not overflow is read as a finite double. -/
theorem Numeral.isFinite_of_toBinary64? (h : n.toBinary64? = some z) : z.isFinite = true := by
  obtain ⟨size, hsize, rfl⟩ := Option.map_eq_some_iff.1 h
  exact decide_eq_true (Magnitude.rank_ofParts?_lt n.parts_lt hsize)

theorem Numeral.overflows_ofInt {value : Int} (h : value.natAbs < 2 ^ 64) :
    (ofInt value).overflows = false := by
  have hparts : (ofInt value).parts = (value.natAbs, .ofNat 0) := parts_of_lt h
  rw [overflows, size?, hparts, Magnitude.ofParts?_integer h]
  rfl

end Eligibility
