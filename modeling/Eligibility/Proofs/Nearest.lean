import Eligibility.Proofs.ExactValue
import Eligibility.Proofs.Rounding

namespace Eligibility
set_option autoImplicit true

/-- How far the size of a rank is from `numerator / denominator` units, in parts of the
denominator. -/
def rankDistance (numerator denominator rank : Nat) : Nat :=
  ((unitsOfRank rank * denominator : Nat) - (numerator : Int)).natAbs

/-- No size is nearer to the quotient, and of two nearest ones the rank is even. -/
structure RoundsToNearest (numerator denominator rank : Nat) : Prop where
  nearest : ∀ other,
    rankDistance numerator denominator rank ≤ rankDistance numerator denominator other
  even : ∀ other, other ≠ rank →
    rankDistance numerator denominator rank = rankDistance numerator denominator other →
    rank % 2 = 0

/-- The size of a rank by its exponent and significand; the next power of two is allowed for. -/
theorem unitsOfRank_significand (hlow : exponent = 0 ∨ binadeSize ≤ significand)
    (hhigh : significand ≤ 2 * binadeSize) :
    unitsOfRank (exponent * binadeSize + significand) = significand * 2 ^ exponent := by
  by_cases hsub : significand < binadeSize
  · obtain rfl := hlow.resolve_right (Nat.not_le_of_lt hsub)
    rw [Nat.zero_mul, Nat.zero_add, unitsOfRank_subnormal hsub, Nat.pow_zero, Nat.mul_one]
  · obtain ⟨fraction, rfl⟩ := Nat.exists_eq_add_of_le (Nat.le_of_not_lt hsub)
    rw [← Nat.add_assoc, ← Nat.succ_mul]
    by_cases hf : fraction < binadeSize
    · exact unitsOfRank_normal exponent hf
    · have hlast : fraction = binadeSize := by omega
      have hnext : exponent.succ * binadeSize + binadeSize =
          (exponent + 1 + 1) * binadeSize + 0 := by
        rw [Nat.add_zero, ← Nat.succ_mul]
      rw [hlast, hnext, unitsOfRank_normal (exponent + 1) (by decide), Nat.pow_succ', Nat.add_zero,
        ← Nat.mul_assoc, Nat.mul_two]

theorem unitsOfRank_floorRank (units : Nat) :
    unitsOfRank (floorRank units) ≤ units ∧ units < unitsOfRank (floorRank units + 1) := by
  have hhigh := significand_lt units
  have hlow : units.log2 - 52 = 0 ∨ binadeSize ≤ units >>> (units.log2 - 52) := by
    by_cases h : units.log2 - 52 = 0
    · exact .inl h
    · right
      have hne : units ≠ 0 := by
        rintro rfl
        exact h rfl
      have hlog := Nat.log2_self_le hne
      have hsum : units.log2 = 52 + (units.log2 - 52) := by omega
      rw [hsum, Nat.pow_add] at hlog
      rw [Nat.shiftRight_eq_div_pow]
      exact (Nat.le_div_iff_mul_le (Nat.two_pow_pos _)).2 hlog
  have hnext := hlow.imp_right Nat.le_succ_of_le
  rw [floorRank, Nat.add_assoc, unitsOfRank_significand hlow (Nat.le_of_lt hhigh),
    unitsOfRank_significand hnext hhigh, Nat.shiftRight_eq_div_pow]
  exact ⟨Nat.div_mul_le_self _ _, Nat.lt_mul_of_div_lt (Nat.lt_succ_self _) (Nat.two_pow_pos _)⟩

theorem le_floorRank_iff : rank ≤ floorRank units ↔ unitsOfRank rank ≤ units := by
  have hfloor := unitsOfRank_floorRank units
  constructor
  · intro h
    exact (unitsOfRank_strictMono.monotone h).trans hfloor.1
  · intro h
    exact Nat.le_of_lt_succ (unitsOfRank_lt_iff.1 (Nat.lt_of_le_of_lt h hfloor.2))

theorem floorRank_mono (h : m ≤ n) : floorRank m ≤ floorRank n :=
  le_floorRank_iff.2 ((unitsOfRank_floorRank m).1.trans h)

theorem floorRank_le_nearestRank (numerator denominator : Nat) :
    floorRank (numerator / denominator) ≤ nearestRank numerator denominator := by
  unfold nearestRank
  dsimp only
  split
  · exact Nat.le_refl _
  · exact Nat.le_succ _

theorem nearestRank_mono (h : m ≤ n) (denominator : Nat) :
    nearestRank m denominator ≤ nearestRank n denominator := by
  have hfloor := floorRank_mono (Nat.div_le_div_right (c := denominator) h)
  rcases Nat.lt_or_eq_of_le hfloor with hlt | heq
  · calc
      nearestRank m denominator ≤ floorRank (m / denominator) + 1 := nearestRank_le _ _
      _ ≤ floorRank (n / denominator) := hlt
      _ ≤ nearestRank n denominator := floorRank_le_nearestRank _ _
  · simp only [nearestRank, heq]
    split
    · split <;> omega
    · split <;> omega

theorem unitsOfRank_mul_lt_iff (hd : 0 < denominator) :
    unitsOfRank m * denominator < unitsOfRank n * denominator ↔ m < n := by
  rw [Nat.mul_lt_mul_right hd, unitsOfRank_lt_iff]

/-- The quotient lies between the sizes of two ranks that follow each other. -/
theorem floorRank_brackets (numerator : Nat) (hd : 0 < denominator) :
    unitsOfRank (floorRank (numerator / denominator)) * denominator ≤ numerator ∧
      numerator < unitsOfRank (floorRank (numerator / denominator) + 1) * denominator := by
  have hfloor := unitsOfRank_floorRank (numerator / denominator)
  exact ⟨(Nat.le_div_iff_mul_le hd).1 hfloor.1, (Nat.div_lt_iff_lt_mul hd).1 hfloor.2⟩

/-- All ranks but the two around the quotient are farther from it than one of these. -/
theorem rankDistance_outside (numerator : Nat) (hd : 0 < denominator) (other : Nat) :
    let low := floorRank (numerator / denominator)
    other = low ∨ other = low + 1 ∨
      rankDistance numerator denominator low < rankDistance numerator denominator other ∨
      rankDistance numerator denominator (low + 1) < rankDistance numerator denominator other := by
  intro low
  have hbrackets : unitsOfRank low * denominator ≤ numerator ∧
      numerator < unitsOfRank (low + 1) * denominator := floorRank_brackets numerator hd
  unfold rankDistance
  rcases Nat.lt_trichotomy other low with hlt | heq | hgt
  · have hless := (unitsOfRank_mul_lt_iff hd).2 hlt
    omega
  · exact .inl heq
  · rcases Nat.lt_or_eq_of_le hgt with hgt | heq
    · have hmore := (unitsOfRank_mul_lt_iff hd).2 hgt
      simp only [Nat.succ_eq_add_one] at hmore
      omega
    · exact .inr (.inl heq.symm)

/-- Of the two ranks around the quotient the nearer is chosen, and the even one on a tie. -/
theorem nearestRank_cases (numerator : Nat) (hd : 0 < denominator) :
    let low := floorRank (numerator / denominator)
    let distance := rankDistance numerator denominator
    nearestRank numerator denominator = low ∧
        (distance low < distance (low + 1) ∨ distance low = distance (low + 1) ∧ low % 2 = 0) ∨
      nearestRank numerator denominator = low + 1 ∧
        (distance (low + 1) < distance low ∨
          distance (low + 1) = distance low ∧ (low + 1) % 2 = 0) := by
  intro low distance
  have hbrackets : unitsOfRank low * denominator ≤ numerator ∧
      numerator < unitsOfRank (low + 1) * denominator := floorRank_brackets numerator hd
  have hrank : nearestRank numerator denominator = if 2 * numerator <
      (unitsOfRank low + unitsOfRank (low + 1)) * denominator ∨ (2 * numerator =
      (unitsOfRank low + unitsOfRank (low + 1)) * denominator ∧ low % 2 = 0)
      then low else low + 1 := rfl
  rw [Nat.add_mul] at hrank
  simp only [distance, rankDistance]
  split at hrank <;> omega

theorem nearestRank_roundsToNearest (numerator : Nat) (hd : 0 < denominator) :
    RoundsToNearest numerator denominator (nearestRank numerator denominator) := by
  have hcases := nearestRank_cases numerator hd
  constructor
  · intro other
    have houtside := rankDistance_outside numerator hd other
    rcases hcases with ⟨he, hnear⟩ | ⟨he, hnear⟩
    · rw [he]
      rcases houtside with rfl | rfl | hfar
      · exact Nat.le_refl _
      · omega
      · omega
    · rw [he]
      rcases houtside with rfl | rfl | hfar
      · omega
      · exact Nat.le_refl _
      · omega
  · intro other hne heq
    have houtside := rankDistance_outside numerator hd other
    rcases hcases with ⟨he, hnear⟩ | ⟨he, hnear⟩
    · rw [he] at hne heq ⊢
      rcases houtside with rfl | rfl | hfar <;> omega
    · rw [he] at hne heq ⊢
      rcases houtside with rfl | rfl | hfar <;> omega

/-- Where a size does not overflow, rounding finds one of the nearest doubles. -/
theorem Magnitude.nearest_roundsToNearest (hd : 0 < denominator)
    (h : (nearest numerator denominator).rank < infinityRank) :
    RoundsToNearest numerator denominator (nearest numerator denominator).rank := by
  have hrank : (nearest numerator denominator).rank = nearestRank numerator denominator := by
    simp only [nearest] at h ⊢
    omega
  rw [hrank]
  exact nearestRank_roundsToNearest numerator hd

theorem Magnitude.rank_nearest_mono (h : m ≤ n) (denominator : Nat) :
    (nearest m denominator).rank ≤ (nearest n denominator).rank := by
  have hrank := nearestRank_mono h denominator
  simp only [nearest]
  omega

theorem Magnitude.rank_ofNat_mono (h : m ≤ n) : (ofNat m).rank ≤ (ofNat n).rank :=
  rank_nearest_mono (Nat.mul_le_mul_right _ h) 1

/-- A size that a rank has is rounded to this rank. -/
theorem nearestRank_unitsOfRank (rank : Nat) : nearestRank (unitsOfRank rank) 1 = rank := by
  have hlow : floorRank (unitsOfRank rank) = rank := by
    apply Nat.le_antisymm
    · exact unitsOfRank_strictMono.le_iff_le.1 (unitsOfRank_floorRank _).1
    · exact le_floorRank_iff.2 (Nat.le_refl _)
  have hnext := unitsOfRank_lt_succ rank
  have hmiddle : 2 * unitsOfRank rank < (unitsOfRank rank + unitsOfRank (rank + 1)) * 1 := by omega
  simp only [nearestRank, Nat.div_one, hlow, hmiddle, true_or, if_true]

theorem Magnitude.nearest_unitsOfRank (m : Magnitude) : nearest (unitsOfRank m.rank) 1 = m := by
  cases m with
  | mk rank hle => simp only [nearest, nearestRank_unitsOfRank, Nat.min_eq_left hle]

/-- A number with at most 53 bits before its zeros is the size of some rank. -/
theorem exists_unitsOfRank (h : significand ≤ 2 * binadeSize) (exponent : Nat) :
    ∃ rank, unitsOfRank rank = significand * 2 ^ exponent := by
  induction exponent generalizing significand with
  | zero =>
    refine ⟨0 * binadeSize + significand, ?_⟩
    exact unitsOfRank_significand (.inl rfl) h
  | succ exponent ih =>
    by_cases hlow : binadeSize ≤ significand
    · exact ⟨_, unitsOfRank_significand (.inr hlow) h⟩
    · have hdouble : 2 * significand ≤ 2 * binadeSize := by omega
      obtain ⟨rank, hr⟩ := ih hdouble
      refine ⟨rank, ?_⟩
      rw [hr, Nat.pow_succ', Nat.mul_comm 2, Nat.mul_assoc]

theorem two_pow_mul_congr (h : a + b = c + d) : 2 ^ a * 2 ^ b = 2 ^ c * 2 ^ d := by
  rw [← Nat.pow_add, ← Nat.pow_add, h]

theorem unitsOfRank_infinityRank : unitsOfRank infinityRank = 2 ^ 1024 * unitsPerOne := by
  have hrank : infinityRank = (2046 + 1) * binadeSize + 0 := rfl
  have hbinade : binadeSize = 2 ^ 52 := rfl
  have hsum : 52 + 2046 = 1024 + 1074 := rfl
  rw [hrank, unitsOfRank_normal 2046 (by decide), hbinade, Nat.add_zero, unitsPerOne,
    Nat.one_shiftLeft, two_pow_mul_congr hsum]

theorem unitsPerOne_pos : 0 < unitsPerOne := by
  decide

theorem two_pow_mul_unitsPerOne_le (h : bits ≤ 1024) :
    2 ^ bits * unitsPerOne ≤ unitsOfRank infinityRank := by
  rw [unitsOfRank_infinityRank]
  generalize 1024 = limit at h ⊢
  exact Nat.mul_le_mul_right _ (Nat.pow_le_pow_right (by decide) h)

theorem exists_unitsPerOne : ∃ places, unitsPerOne = 2 ^ places := by
  rw [unitsPerOne]
  generalize 1074 = places
  exact ⟨places, Nat.one_shiftLeft places⟩

/-- An integer with at most 53 bits before its zeros is a double. -/
theorem unitsOfRank_ofNat (h : significand ≤ 2 * binadeSize)
    (hlt : significand * 2 ^ exponent < 2 ^ bits) (hbits : bits ≤ 1024) :
    unitsOfRank (Magnitude.ofNat (significand * 2 ^ exponent)).rank =
      significand * 2 ^ exponent * unitsPerOne := by
  obtain ⟨places, hunit⟩ := exists_unitsPerOne
  obtain ⟨rank, hr⟩ := exists_unitsOfRank h (exponent + places)
  rw [Nat.pow_add, ← Nat.mul_assoc, ← hunit] at hr
  have hfinite : rank < infinityRank := by
    rw [← unitsOfRank_lt_iff, hr]
    calc
      significand * 2 ^ exponent * unitsPerOne < 2 ^ bits * unitsPerOne :=
        Nat.mul_lt_mul_of_pos_right hlt unitsPerOne_pos
      _ ≤ unitsOfRank infinityRank := two_pow_mul_unitsPerOne_le hbits
  simp only [Magnitude.ofNat, Magnitude.nearest, ← hr, nearestRank_unitsOfRank,
    Nat.min_eq_left (Nat.le_of_lt hfinite)]

theorem unitsOfRank_ofNat_small (h : value ≤ 2 * binadeSize) :
    unitsOfRank (Magnitude.ofNat value).rank = value * unitsPerOne := by
  have hlt : value * 2 ^ 0 < 2 ^ 54 := by
    rw [Nat.pow_zero, Nat.mul_one]
    exact Nat.lt_of_le_of_lt h (by decide)
  have hexact := unitsOfRank_ofNat h hlt (by decide)
  rwa [Nat.pow_zero, Nat.mul_one] at hexact

end Eligibility
