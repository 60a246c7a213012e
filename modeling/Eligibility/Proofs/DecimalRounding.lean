import Eligibility.Proofs.Nearest

namespace Eligibility
set_option autoImplicit true

/-- The number is the quotient of this and the denominator. -/
def Decimal.numerator (d : Decimal) : Nat :=
  d.significand * 10 ^ d.exponent.toNat

def Decimal.denominator (d : Decimal) : Nat :=
  10 ^ (-d.exponent).toNat

/-- The size is the one nearest to the number, of two nearest ones the even. The ranks go on above
the finite sizes, and a number that is nearest to one of those rounds to infinity. -/
def Decimal.RoundsTo (d : Decimal) (size : Magnitude) : Prop :=
  ∃ rank, RoundsToNearest (d.numerator * unitsPerOne) d.denominator rank ∧
    size.rank = min rank infinityRank

variable {numerator denominator : Nat} {m n : Nat}

/-- Between two ranks that do not follow each other lies one that is nearer than the farther. -/
theorem RoundsToNearest.le_succ (hm : RoundsToNearest numerator denominator m)
    (hn : RoundsToNearest numerator denominator n) (hd : 0 < denominator) : n ≤ m + 1 := by
  by_contra hlt
  have hlow : unitsOfRank m * denominator < unitsOfRank (m + 1) * denominator :=
    (unitsOfRank_mul_lt_iff hd).2 (Nat.lt_succ_self m)
  have hhigh : unitsOfRank (m + 1) * denominator < unitsOfRank n * denominator :=
    (unitsOfRank_mul_lt_iff hd).2 (Nat.lt_of_not_le hlt)
  have hbetween := hm.nearest (m + 1)
  have hbetween' := hn.nearest (m + 1)
  simp only [rankDistance] at hbetween hbetween'
  omega

theorem RoundsToNearest.unique (hm : RoundsToNearest numerator denominator m)
    (hn : RoundsToNearest numerator denominator n) (hd : 0 < denominator) : m = n := by
  by_contra hne
  have hdistance := Nat.le_antisymm (hm.nearest n) (hn.nearest m)
  have hmeven := hm.even n (Ne.symm hne) hdistance
  have hneven := hn.even m hne hdistance.symm
  have hmn := hm.le_succ hn hd
  have hnm := hn.le_succ hm hd
  omega

/-- A number that reaches the size of a rank is not rounded to a lower one. -/
theorem le_nearestRank (h : unitsOfRank m * denominator ≤ numerator) (hd : 0 < denominator) :
    m ≤ nearestRank numerator denominator :=
  (le_floorRank_iff.2 ((Nat.le_div_iff_mul_le hd).2 h)).trans (floorRank_le_nearestRank _ _)

/-- A number below half of the least positive double is rounded to zero. -/
theorem nearestRank_eq_zero (h : 2 * numerator < denominator) :
    nearestRank numerator denominator = 0 := by
  have hquotient : numerator / denominator = 0 := Nat.div_eq_of_lt (by omega)
  have hfloor : floorRank 0 = 0 := by decide
  have hone : unitsOfRank 0 + unitsOfRank (0 + 1) = 1 := by decide
  simp only [nearestRank, hquotient, hfloor, hone, Nat.one_mul, h, true_or, if_true]

theorem Magnitude.nearest_eq_infinity
    (h : 2 ^ 1024 * unitsPerOne * denominator ≤ numerator) (hd : 0 < denominator) :
    nearest numerator denominator = infinity := by
  rw [← unitsOfRank_infinityRank] at h
  have hrank := le_nearestRank h hd
  simp only [nearest, infinity, Nat.min_eq_right hrank]

theorem Magnitude.nearest_eq_zero (h : 2 * numerator < denominator) :
    nearest numerator denominator = zero := by
  simp only [nearest, nearestRank_eq_zero h, Nat.zero_min, zero]

theorem powerOfTen_pos (power : Nat) : 0 < powerOfTen power :=
  Nat.pow_pos (by decide)

theorem powerOfTen_mono (h : m ≤ n) : powerOfTen m ≤ powerOfTen n :=
  Nat.pow_le_pow_right (by decide) h

theorem two_pow_le_ten_pow (power : Nat) : 2 ^ (3 * power) ≤ 10 ^ power :=
  calc
    2 ^ (3 * power) = 8 ^ power := Nat.pow_mul 2 3 power
    _ ≤ 10 ^ power := Nat.pow_le_pow_left (by decide) power

/-- A power of ten has at least three bits for each zero. -/
theorem two_pow_le_of_significand (hs : 0 < significand) (hp : bits ≤ 3 * power) :
    2 ^ bits ≤ significand * 10 ^ power :=
  calc
    2 ^ bits ≤ 2 ^ (3 * power) := Nat.pow_le_pow_right (by decide) hp
    _ ≤ 10 ^ power := two_pow_le_ten_pow power
    _ ≤ significand * 10 ^ power := Nat.le_mul_of_pos_left _ hs

/-- A significand of few bits vanishes before a power of ten. -/
theorem significand_mul_lt (h : significand.log2 + bits + 2 ≤ 3 * power) :
    2 * (significand * 1 <<< bits) < 10 ^ power :=
  calc
    2 * (significand * 1 <<< bits) < 2 * (2 ^ (significand.log2 + 1) * 1 <<< bits) := by
      rw [Nat.one_shiftLeft]
      exact Nat.mul_lt_mul_of_pos_left
        (Nat.mul_lt_mul_of_pos_right Nat.lt_log2_self (Nat.two_pow_pos bits)) (by decide)
    _ = 2 ^ (significand.log2 + 1 + bits + 1) := by
      rw [Nat.one_shiftLeft, ← Nat.pow_add, ← Nat.pow_succ']
    _ ≤ 2 ^ (3 * power) := Nat.pow_le_pow_right (by decide) (by omega)
    _ ≤ 10 ^ power := two_pow_le_ten_pow power

/-- The bounds that keep the calculation small do not change its result. -/
theorem Magnitude.ofDecimal_eq_nearest (d : Decimal) :
    ofDecimal d = nearest (d.numerator * unitsPerOne) d.denominator := by
  obtain ⟨significand, exponent⟩ := d
  cases exponent with
  | ofNat power =>
    have hdenominator : Decimal.denominator ⟨significand, .ofNat power⟩ = 1 := by
      simp [Decimal.denominator]
    have hnumerator : Decimal.numerator ⟨significand, .ofNat power⟩ = significand * 10 ^ power :=
      rfl
    rw [hdenominator, hnumerator]
    simp only [ofDecimal]
    split
    case isTrue h =>
      rw [h, Nat.zero_mul, Nat.zero_mul]
      exact (nearest_eq_zero (by decide)).symm
    case isFalse h =>
      split
      case isTrue hp =>
        have hbits : 1024 ≤ 3 * power := by omega
        have hlarge := two_pow_le_of_significand (Nat.pos_of_ne_zero h) hbits
        refine (nearest_eq_infinity ?_ Nat.one_pos).symm
        rw [Nat.mul_one]
        exact Nat.mul_le_mul_right _ hlarge
      case isFalse => rfl
  | negSucc power =>
    have hnumerator : Decimal.numerator ⟨significand, .negSucc power⟩ = significand :=
      Nat.mul_one significand
    have hdenominator : Decimal.denominator ⟨significand, .negSucc power⟩ = 10 ^ (power + 1) := rfl
    rw [hdenominator, hnumerator]
    simp only [ofDecimal]
    split
    case isTrue h =>
      have hbits : significand.log2 + 1074 + 2 ≤ 3 * (power + 1) := by omega
      exact (nearest_eq_zero (significand_mul_lt hbits)).symm
    case isFalse => rfl

theorem Magnitude.ofDecimal_ofNat (significand power : Nat) :
    ofDecimal ⟨significand, .ofNat power⟩ = nearest (significand * 10 ^ power * unitsPerOne) 1 := by
  rw [ofDecimal_eq_nearest]
  simp [Decimal.numerator, Decimal.denominator]

theorem Magnitude.ofDecimal_negSucc (significand power : Nat) :
    ofDecimal ⟨significand, .negSucc power⟩ =
      nearest (significand * unitsPerOne) (10 ^ (power + 1)) := by
  rw [ofDecimal_eq_nearest]
  simp [Decimal.numerator, Decimal.denominator]

theorem Decimal.denominator_pos (d : Decimal) : 0 < d.denominator :=
  Nat.pow_pos (by decide)

/-- A decimal is converted to the one size that it rounds to. -/
theorem Decimal.roundsTo_iff {d : Decimal} : d.RoundsTo size ↔ size = .ofDecimal d := by
  have hnearest := nearestRank_roundsToNearest (d.numerator * unitsPerOne) d.denominator_pos
  rw [Magnitude.ofDecimal_eq_nearest]
  constructor
  · rintro ⟨rank, hr, hsize⟩
    rw [hr.unique hnearest d.denominator_pos] at hsize
    cases size
    simp only [Magnitude.nearest, ← hsize]
  · rintro rfl
    exact ⟨_, hnearest, rfl⟩

end Eligibility
