import Eligibility.Binary64.Rounding
import Mathlib.Algebra.Group.Nat.Defs

namespace Eligibility
set_option autoImplicit true

/-- The significand of a size has at most 53 bits. -/
theorem significand_lt (units : Nat) : units >>> (units.log2 - 52) < 2 * binadeSize := by
  rw [Nat.shiftRight_eq_div_pow]
  apply Nat.div_lt_of_lt_mul
  have hbits : 2 ^ (units.log2 + 1) ≤ 2 ^ (units.log2 - 52 + 53) :=
    Nat.pow_le_pow_right (by decide) (by omega)
  rw [Nat.pow_add 2 (units.log2 - 52)] at hbits
  exact Nat.lt_of_lt_of_le Nat.lt_log2_self hbits

/-- A size below a power of two has a rank in its binade or below. -/
theorem floorRank_lt (h : units < 2 ^ (k + 53)) : floorRank units < (k + 2) * binadeSize := by
  have hk : units.log2 - 52 ≤ k := by
    by_cases h0 : units = 0
    · rw [h0]
      exact Nat.zero_le k
    · have hlog := (Nat.log2_lt h0).2 h
      omega
  have hsignificand := significand_lt units
  have hexponent := Nat.mul_le_mul_right binadeSize hk
  simp only [floorRank, Nat.add_mul]
  omega

theorem nearestRank_le (numerator denominator : Nat) :
    nearestRank numerator denominator ≤ floorRank (numerator / denominator) + 1 := by
  unfold nearestRank
  dsimp only
  split
  · exact Nat.le_succ _
  · exact Nat.le_refl _

/-- A size below the last binade is not rounded to infinity. -/
theorem Magnitude.rank_nearest_lt (h : numerator / denominator < 2 ^ (k + 53)) (hk : k < 2044) :
    (nearest numerator denominator).rank < infinityRank := by
  have hfloor := floorRank_lt h
  have hnear := nearestRank_le numerator denominator
  have hbinade := Nat.mul_le_mul_right binadeSize (Nat.add_le_add_right (Nat.le_of_lt hk) 2)
  have hinfinity : (2044 + 2) * binadeSize + 1 < infinityRank := by decide
  refine Nat.lt_of_le_of_lt (Nat.min_le_left _ _) ?_
  omega

theorem shiftLeft_lt (h : n < 2 ^ k) (j : Nat) : n * 1 <<< j < 2 ^ (k + j) := by
  rw [Nat.one_shiftLeft, Nat.pow_add]
  exact Nat.mul_lt_mul_of_pos_right h (Nat.two_pow_pos j)

/-- The integers of 64 bits are within the range of a double. -/
theorem Magnitude.rank_ofNat_lt (h : n < 2 ^ 64) : (ofNat n).rank < infinityRank := by
  obtain ⟨k, hk, hbound⟩ : ∃ k, 64 + 1074 = k + 53 ∧ k < 2044 := ⟨1085, rfl, by decide⟩
  have hlt := shiftLeft_lt h 1074
  rw [hk, ← Nat.div_one (n * 1 <<< 1074)] at hlt
  exact rank_nearest_lt hlt hbound

/-- An integer is converted like the decimal without a fraction and an exponent. -/
theorem Magnitude.ofDecimal_integer (n : Nat) : ofDecimal ⟨n, 0⟩ = ofNat n := by
  have hzero : ofNat 0 = zero := by decide
  have hpower : powerOfTen 0 = 1 := rfl
  simp only [ofDecimal]
  split
  case isTrue h => rw [h, hzero]
  case isFalse =>
    rw [hpower, Nat.mul_one]
    rfl

end Eligibility
