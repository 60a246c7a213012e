import Eligibility.Proofs.DecimalRounding
import Mathlib.Algebra.Order.Field.Rat
import Mathlib.Tactic.FieldSimp
import Mathlib.Tactic.Linarith
import Mathlib.Tactic.Positivity
import Mathlib.Tactic.Ring

namespace Eligibility
set_option autoImplicit true

/-- The distance in units from the size of a rank to the next one. -/
def rankGap (rank : Nat) : Nat :=
  2 ^ (rank / binadeSize - 1)

theorem exists_significand (rank : Nat) : ∃ significand,
    rank = (rank / binadeSize - 1) * binadeSize + significand ∧
    (rank / binadeSize - 1 = 0 ∨ binadeSize ≤ significand) ∧ significand < 2 * binadeSize := by
  have hmod := Nat.mod_lt rank (by decide : 0 < binadeSize)
  have hdiv := Nat.div_add_mod' rank binadeSize
  cases hq : rank / binadeSize with
  | zero =>
    rw [hq] at hdiv
    exact ⟨rank, by omega, .inl rfl, by omega⟩
  | succ exponent =>
    rw [hq, Nat.succ_mul] at hdiv
    rw [Nat.succ_sub_one]
    exact ⟨binadeSize + rank % binadeSize, by omega, .inr (by omega), by omega⟩

theorem unitsOfRank_succ (rank : Nat) :
    unitsOfRank (rank + 1) = unitsOfRank rank + rankGap rank := by
  obtain ⟨significand, hrank, hlow, hhigh⟩ := exists_significand rank
  have hthis := unitsOfRank_significand hlow (Nat.le_of_lt hhigh)
  have hnext := unitsOfRank_significand (hlow.imp_right Nat.le_succ_of_le) hhigh
  rw [Nat.succ_eq_add_one, ← Nat.add_assoc, ← hrank, Nat.add_mul, Nat.one_mul] at hnext
  rw [← hrank] at hthis
  rw [hnext, hthis, rankGap]

/-- A size has at most 53 bits. -/
theorem unitsOfRank_succ_le (rank : Nat) :
    unitsOfRank (rank + 1) ≤ 2 ^ 53 * rankGap rank := by
  obtain ⟨significand, hrank, hlow, hhigh⟩ := exists_significand rank
  have hnext := unitsOfRank_significand (hlow.imp_right Nat.le_succ_of_le) hhigh
  rw [Nat.succ_eq_add_one, ← Nat.add_assoc, ← hrank] at hnext
  rw [hnext, rankGap]
  exact Nat.mul_le_mul_right _ hhigh

/-- A normal size has at least 53 bits. -/
theorem le_unitsOfRank (h : binadeSize ≤ rank) : 2 ^ 52 * rankGap rank ≤ unitsOfRank rank := by
  obtain ⟨significand, hrank, hlow, hhigh⟩ := exists_significand rank
  have hthis := unitsOfRank_significand hlow (Nat.le_of_lt hhigh)
  have hsignificand : binadeSize ≤ significand := by
    rcases hlow with hzero | hlow
    · rw [hzero] at hrank
      omega
    · exact hlow
  rw [← hrank] at hthis
  rw [hthis, rankGap]
  exact Nat.mul_le_mul_right _ hsignificand

theorem rankGap_mono (h : m ≤ n) : rankGap m ≤ rankGap n :=
  Nat.pow_le_pow_right (by decide) (Nat.sub_le_sub_right (Nat.div_le_div_right h) 1)

theorem rankGap_pos (rank : Nat) : 0 < rankGap rank :=
  Nat.two_pow_pos _

theorem rankGap_of_lt (h : rank < binadeSize) : rankGap rank = 1 := by
  rw [rankGap, Nat.div_eq_of_lt h]
  rfl

theorem unitsOfRank_add_le (rank steps : Nat) :
    unitsOfRank rank + steps * rankGap rank ≤ unitsOfRank (rank + steps) := by
  induction steps with
  | zero => simp
  | succ steps ih =>
    have hgap := rankGap_mono (Nat.le_add_right rank steps)
    rw [← Nat.add_assoc, unitsOfRank_succ, Nat.add_mul, Nat.one_mul]
    omega

/-- What is rounded lies between the middles to the next sizes. -/
theorem le_middle_above (numerator : Nat) (hd : 0 < denominator) :
    2 * numerator ≤ (unitsOfRank (nearestRank numerator denominator) +
      unitsOfRank (nearestRank numerator denominator + 1)) * denominator := by
  have hbrackets := floorRank_brackets numerator hd
  unfold nearestRank
  dsimp only
  split
  case isTrue h =>
    rcases h with h | h
    · exact Nat.le_of_lt h
    · exact Nat.le_of_eq h.1
  case isFalse =>
    have hnext := unitsOfRank_lt_succ (floorRank (numerator / denominator) + 1)
    have hle : 2 * (unitsOfRank (floorRank (numerator / denominator) + 1) * denominator) ≤
        (unitsOfRank (floorRank (numerator / denominator) + 1) +
          unitsOfRank (floorRank (numerator / denominator) + 1 + 1)) * denominator := by
      rw [← Nat.mul_assoc]
      exact Nat.mul_le_mul_right _ (by omega)
    omega

theorem middle_below_le (numerator : Nat) (hd : 0 < denominator)
    (h : nearestRank numerator denominator = lower + 1) :
    (unitsOfRank lower + unitsOfRank (lower + 1)) * denominator ≤ 2 * numerator := by
  have hbrackets := floorRank_brackets numerator hd
  unfold nearestRank at h
  dsimp only at h
  split at h
  case isTrue =>
    have hlower := unitsOfRank_lt_succ lower
    rw [h] at hbrackets
    have hle : (unitsOfRank lower + unitsOfRank (lower + 1)) * denominator ≤
        2 * (unitsOfRank (lower + 1) * denominator) := by
      rw [← Nat.mul_assoc]
      exact Nat.mul_le_mul_right _ (by omega)
    omega
  case isFalse hmiddle =>
    rw [Nat.add_right_cancel h] at hmiddle
    omega

/-- What lies below the middle to the next size is not rounded to a higher rank. -/
theorem nearestRank_le_of_lt (hd : 0 < denominator)
    (h : 2 * numerator < (unitsOfRank rank + unitsOfRank (rank + 1)) * denominator) :
    nearestRank numerator denominator ≤ rank := by
  by_contra hlt
  obtain ⟨steps, hr⟩ := Nat.exists_eq_add_of_lt (Nat.lt_of_not_le hlt)
  have hmiddle := middle_below_le numerator hd hr
  have hrank := unitsOfRank_strictMono.monotone (Nat.le_add_right rank steps)
  have hnext := unitsOfRank_strictMono.monotone
    (Nat.add_le_add_right (Nat.le_add_right rank steps) 1)
  have hle := Nat.mul_le_mul_right denominator (Nat.add_le_add hrank hnext)
  omega

/-- The largest relative error of a rounding that stays above the subnormal doubles: half of the
distance between one and the next double. -/
def roundoff : ℚ :=
  1 / 2 ^ 53

/-- Each of two numbers exceeds the other by the factor at most and, beside it, by the slack. -/
def Within (factor slack x y : ℚ) : Prop :=
  x ≤ y * factor + slack ∧ y ≤ x * factor + slack

theorem Within.symm (h : Within factor slack x y) : Within factor slack y x :=
  ⟨h.2, h.1⟩

/-- The errors of two steps add up. -/
theorem Within.trans (hxy : Within factor slack x y) (hyz : Within factor' slack' y z)
    (hf : 1 ≤ factor) (hf' : 1 ≤ factor') (hs : 0 ≤ slack) (hs' : 0 ≤ slack') :
    Within (factor * factor') (slack * factor' + slack' * factor) x z := by
  have hpos : 0 ≤ factor := le_trans zero_le_one hf
  have hpos' : 0 ≤ factor' := le_trans zero_le_one hf'
  constructor
  · calc
      x ≤ y * factor + slack := hxy.1
      _ ≤ (z * factor' + slack') * factor + slack * factor' := by
        gcongr
        · exact hyz.1
        · exact le_mul_of_one_le_right hs hf'
      _ = z * (factor * factor') + (slack * factor' + slack' * factor) := by ring
  · calc
      z ≤ y * factor' + slack' := hyz.2
      _ ≤ (x * factor + slack) * factor' + slack' * factor := by
        gcongr
        · exact hxy.2
        · exact le_mul_of_one_le_right hs' hf
      _ = x * (factor * factor') + (slack * factor' + slack' * factor) := by ring

theorem Within.mul_right (h : Within factor slack x y) (hc : 0 ≤ c) :
    Within factor (slack * c) (x * c) (y * c) := by
  constructor
  · calc
      x * c ≤ (y * factor + slack) * c := mul_le_mul_of_nonneg_right h.1 hc
      _ = y * c * factor + slack * c := by ring
  · calc
      y * c ≤ (x * factor + slack) * c := mul_le_mul_of_nonneg_right h.2 hc
      _ = x * c * factor + slack * c := by ring

/-- A quotient takes over the relative error of its divisor. -/
theorem Within.const_div (h : Within factor 0 x y) (hc : 0 ≤ c) (hx : 0 < x) (hy : 0 < y) :
    Within factor 0 (c / x) (c / y) := by
  constructor
  · rw [add_zero, div_mul_eq_mul_div, div_le_div_iff₀ hx hy]
    have hyx := h.2
    rw [add_zero] at hyx
    calc
      c * y ≤ c * (x * factor) := mul_le_mul_of_nonneg_left hyx hc
      _ = c * factor * x := by ring
  · rw [add_zero, div_mul_eq_mul_div, div_le_div_iff₀ hy hx]
    have hxy := h.1
    rw [add_zero] at hxy
    calc
      c * x ≤ c * (y * factor) := mul_le_mul_of_nonneg_left hxy hc
      _ = c * factor * y := by ring

section Rational

variable {numerator denominator numerator' denominator' : Nat}

theorem unitsOfRank_succ_cast (rank : Nat) :
    (unitsOfRank (rank + 1) : ℚ) = unitsOfRank rank + rankGap rank := by
  rw [unitsOfRank_succ, Nat.cast_add]

theorem quotient_le_middle (numerator : Nat) (hd : 0 < denominator) :
    (numerator : ℚ) / denominator ≤ unitsOfRank (nearestRank numerator denominator) +
      rankGap (nearestRank numerator denominator) / 2 := by
  have hcast : (0 : ℚ) < denominator := Nat.cast_pos.2 hd
  have hmiddle : (2 * numerator : ℚ) ≤ (unitsOfRank (nearestRank numerator denominator) +
      unitsOfRank (nearestRank numerator denominator + 1)) * denominator :=
    mod_cast le_middle_above numerator hd
  rw [unitsOfRank_succ_cast] at hmiddle
  rw [div_le_iff₀ hcast]
  linarith

theorem middle_le_quotient (numerator : Nat) (hd : 0 < denominator)
    (h : nearestRank numerator denominator = lower + 1) :
    (unitsOfRank (lower + 1) : ℚ) - rankGap lower / 2 ≤ numerator / denominator := by
  have hcast : (0 : ℚ) < denominator := Nat.cast_pos.2 hd
  have hmiddle : ((unitsOfRank lower + unitsOfRank (lower + 1)) * denominator : ℚ) ≤
      2 * numerator := mod_cast middle_below_le numerator hd h
  have hsucc := unitsOfRank_succ_cast lower
  rw [le_div_iff₀ hcast]
  rw [hsucc] at hmiddle ⊢
  linarith

/-- Half of a gap is the roundoff of what lies above it. -/
theorem half_rankGap_le_of_normal {x : ℚ} (h : (unitsOfRank rank : ℚ) ≤ x) (hx : 2 ^ 52 ≤ x) :
    (rankGap rank : ℚ) / 2 ≤ x * roundoff + 0 := by
  have hgap : (2 ^ 52 * rankGap rank : ℚ) ≤ x := by
    by_cases hr : binadeSize ≤ rank
    · exact le_trans (mod_cast le_unitsOfRank hr) h
    · rw [rankGap_of_lt (Nat.lt_of_not_le hr), Nat.cast_one, mul_one]
      exact hx
  unfold roundoff
  linarith

/-- Half of a gap is half a unit where what lies above it is subnormal. -/
theorem half_rankGap_le {x : ℚ} (h : (unitsOfRank rank : ℚ) ≤ x) (hx : 0 ≤ x) :
    (rankGap rank : ℚ) / 2 ≤ x * roundoff + 1 / 2 := by
  have hnonneg : 0 ≤ x * roundoff := by
    unfold roundoff
    positivity
  by_cases hr : binadeSize ≤ rank
  · have hgap : (2 ^ 52 * rankGap rank : ℚ) ≤ unitsOfRank rank := mod_cast le_unitsOfRank hr
    have hone : (1 : ℚ) ≤ rankGap rank := mod_cast rankGap_pos rank
    have hhalf := half_rankGap_le_of_normal h (by linarith)
    linarith
  · rw [rankGap_of_lt (Nat.lt_of_not_le hr), Nat.cast_one]
    linarith

/-- A rounding errs by the roundoff, or by half a unit. -/
theorem within_nearestRank (numerator : Nat) (hd : 0 < denominator) (hs : 0 ≤ slack)
    (hgap : ∀ (rank : Nat) (x : ℚ), (unitsOfRank rank : ℚ) ≤ x → bound ≤ x →
      (rankGap rank : ℚ) / 2 ≤ x * roundoff + slack)
    (hq : bound ≤ (numerator : ℚ) / denominator)
    (hr : bound ≤ (unitsOfRank (nearestRank numerator denominator) : ℚ)) :
    Within (1 + roundoff) slack (unitsOfRank (nearestRank numerator denominator))
      (numerator / denominator) := by
  have habove := quotient_le_middle numerator hd
  constructor
  · cases hrank : nearestRank numerator denominator with
    | zero =>
      have hzero : (unitsOfRank 0 : ℚ) = 0 := rfl
      have hnonneg : (0 : ℚ) ≤ numerator / denominator * (1 + roundoff) := by
        unfold roundoff
        positivity
      linarith
    | succ lower =>
      have hbelow := middle_le_quotient numerator hd hrank
      have hsucc := unitsOfRank_succ_cast lower
      have hnonneg : (0 : ℚ) ≤ rankGap lower := Nat.cast_nonneg _
      have hhalf := hgap lower _ (by linarith) hq
      linarith
  · have hhalf := hgap (nearestRank numerator denominator) _ (le_refl _) hr
    linarith

theorem within_nearestRank_of_normal (hd : 0 < denominator)
    (h : 2 ^ 52 * denominator ≤ numerator) :
    Within (1 + roundoff) 0 (unitsOfRank (nearestRank numerator denominator))
      (numerator / denominator) := by
  have hcast : (0 : ℚ) < denominator := Nat.cast_pos.2 hd
  have hquotient : (2 ^ 52 : ℚ) ≤ numerator / denominator := by
    rw [le_div_iff₀ hcast]
    exact mod_cast h
  have hbinade : unitsOfRank binadeSize = 2 ^ 52 := by decide
  have hrank : binadeSize ≤ nearestRank numerator denominator := by
    apply le_nearestRank _ hd
    rwa [hbinade]
  have hsize : (2 ^ 52 : ℚ) ≤ unitsOfRank (nearestRank numerator denominator) := by
    have hmono := unitsOfRank_strictMono.monotone hrank
    rw [hbinade] at hmono
    exact mod_cast hmono
  exact within_nearestRank numerator hd (le_refl 0) (fun _ _ => half_rankGap_le_of_normal)
    hquotient hsize

theorem within_nearestRank_half (numerator : Nat) (hd : 0 < denominator) :
    Within (1 + roundoff) (1 / 2) (unitsOfRank (nearestRank numerator denominator))
      (numerator / denominator) :=
  within_nearestRank numerator hd (by norm_num) (fun _ _ => half_rankGap_le) (by positivity)
    (Nat.cast_nonneg _)

/-- The distance to the rounded size is at most half of the gap above it. -/
theorem abs_sub_nearestRank_le (numerator : Nat) (hd : 0 < denominator) :
    |(unitsOfRank (nearestRank numerator denominator) : ℚ) - numerator / denominator| ≤
      rankGap (nearestRank numerator denominator) / 2 := by
  have habove := quotient_le_middle numerator hd
  rw [abs_le]
  constructor
  · linarith
  · cases hrank : nearestRank numerator denominator with
    | zero =>
      have hzero : (unitsOfRank 0 : ℚ) = 0 := rfl
      have hnonneg : (0 : ℚ) ≤ numerator / denominator := by positivity
      have hgap : (0 : ℚ) ≤ rankGap 0 := Nat.cast_nonneg _
      linarith
    | succ lower =>
      have hbelow := middle_le_quotient numerator hd hrank
      have hgap : (rankGap lower : ℚ) ≤ rankGap (lower + 1) :=
        mod_cast rankGap_mono (Nat.le_succ lower)
      linarith

/-- The middle that is some ranks higher is at least as many gaps away. -/
theorem middle_add_le (rank steps : Nat) :
    (2 * (unitsOfRank rank + rankGap rank / 2 + steps * rankGap rank) : ℚ) ≤
      unitsOfRank (rank + steps) + unitsOfRank (rank + steps + 1) := by
  have hthis : (unitsOfRank rank + steps * rankGap rank : ℚ) ≤ unitsOfRank (rank + steps) :=
    mod_cast unitsOfRank_add_le rank steps
  have hnext : (unitsOfRank rank + (steps + 1 : Nat) * rankGap rank : ℚ) ≤
      unitsOfRank (rank + steps + 1) := mod_cast unitsOfRank_add_le rank (steps + 1)
  push_cast at hnext
  linarith

/-- Numbers that are near to each other are rounded to ranks that are. -/
theorem nearestRank_le_add (hd : 0 < denominator) (hd' : 0 < denominator')
    (h : Within factor slack (numerator / denominator) (numerator' / denominator'))
    (hf : 1 ≤ factor) (hs : 0 ≤ slack)
    (hlt : (factor - 1) * (2 ^ 53 - 1 / 2) + slack < (steps : Nat)) :
    nearestRank numerator denominator ≤ nearestRank numerator' denominator' + steps := by
  have hcast : (0 : ℚ) < denominator := Nat.cast_pos.2 hd
  have habove := quotient_le_middle numerator' hd'
  generalize nearestRank numerator' denominator' = rank at habove ⊢
  have hgap : (1 : ℚ) ≤ rankGap rank := mod_cast rankGap_pos rank
  have hsize : (unitsOfRank rank + rankGap rank : ℚ) ≤ 2 ^ 53 * rankGap rank := by
    rw [← unitsOfRank_succ_cast]
    exact mod_cast unitsOfRank_succ_le rank
  have hquotient : (numerator : ℚ) / denominator <
      unitsOfRank rank + rankGap rank / 2 + steps * rankGap rank := by
    have hsmall : (unitsOfRank rank + rankGap rank / 2 : ℚ) ≤ (2 ^ 53 - 1 / 2) * rankGap rank := by
      linarith
    calc
      (numerator : ℚ) / denominator ≤ numerator' / denominator' * factor + slack := h.1
      _ ≤ (unitsOfRank rank + rankGap rank / 2) * factor + slack * rankGap rank := by
        gcongr
        exact le_mul_of_one_le_right hs hgap
      _ = unitsOfRank rank + rankGap rank / 2 +
          ((factor - 1) * (unitsOfRank rank + rankGap rank / 2) + slack * rankGap rank) := by ring
      _ ≤ unitsOfRank rank + rankGap rank / 2 +
          ((factor - 1) * ((2 ^ 53 - 1 / 2) * rankGap rank) + slack * rankGap rank) := by
        gcongr
      _ = unitsOfRank rank + rankGap rank / 2 +
          ((factor - 1) * (2 ^ 53 - 1 / 2) + slack) * rankGap rank := by ring
      _ < _ := by gcongr
  apply nearestRank_le_of_lt hd
  have hmiddle : (2 * numerator : ℚ) <
      (unitsOfRank (rank + steps) + unitsOfRank (rank + steps + 1)) * denominator := by
    rw [div_lt_iff₀ hcast] at hquotient
    have hmul := mul_le_mul_of_nonneg_right (middle_add_le rank steps) (le_of_lt hcast)
    linarith
  exact mod_cast hmiddle

end Rational

end Eligibility
