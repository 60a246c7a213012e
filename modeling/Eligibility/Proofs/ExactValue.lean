import Eligibility.Binary64.Rounding
import Mathlib.Data.EReal.Operations

namespace Eligibility
set_option autoImplicit true

theorem unitsOfRank_subnormal (h : rank < binadeSize) : unitsOfRank rank = rank := by
  have hq : rank / binadeSize = 0 := Nat.div_eq_of_lt h
  simp only [unitsOfRank, hq, Nat.zero_sub, Nat.zero_mul, Nat.sub_zero, Nat.shiftLeft_zero]

theorem unitsOfRank_normal (exponent : Nat) (h : fraction < binadeSize) :
    unitsOfRank ((exponent + 1) * binadeSize + fraction) =
      (binadeSize + fraction) * 2 ^ exponent := by
  have hq : ((exponent + 1) * binadeSize + fraction) / binadeSize = exponent + 1 := by
    rw [Nat.mul_comm, Nat.mul_add_div (by decide), Nat.div_eq_of_lt h, Nat.add_zero]
  have hs : (exponent + 1) * binadeSize + fraction - exponent * binadeSize =
      binadeSize + fraction := by
    rw [Nat.succ_mul, Nat.add_assoc, Nat.add_sub_cancel_left]
  simp only [unitsOfRank, hq, Nat.add_sub_cancel, hs, Nat.shiftLeft_eq]

theorem unitsOfRank_lt_succ (rank : Nat) : unitsOfRank rank < unitsOfRank (rank + 1) := by
  by_cases hlow : rank < binadeSize
  · rw [unitsOfRank_subnormal hlow]
    by_cases hlast : rank + 1 < binadeSize
    · rw [unitsOfRank_subnormal hlast]
      exact Nat.lt_succ_self rank
    · have he : rank + 1 = (0 + 1) * binadeSize + 0 := by omega
      rw [he, unitsOfRank_normal 0 (by decide)]
      omega
  · have hpos : 0 < binadeSize := by decide
    have hne : rank / binadeSize ≠ 0 := (Nat.div_pos (Nat.le_of_not_lt hlow) hpos).ne'
    obtain ⟨exponent, he⟩ := Nat.exists_eq_succ_of_ne_zero hne
    have hf := Nat.mod_lt rank hpos
    have hr : rank = (exponent + 1) * binadeSize + rank % binadeSize := by
      rw [← Nat.succ_eq_add_one, ← he, Nat.div_add_mod']
    have hpow := Nat.two_pow_pos exponent
    by_cases hlast : rank % binadeSize + 1 < binadeSize
    · rw [hr, Nat.add_assoc, unitsOfRank_normal exponent hf, unitsOfRank_normal exponent hlast]
      exact Nat.mul_lt_mul_of_pos_right (Nat.lt_succ_self _) hpow
    · have hn : rank + 1 = (exponent + 1 + 1) * binadeSize + 0 := by
        rw [Nat.succ_mul]
        omega
      have hstep : binadeSize + rank % binadeSize < (binadeSize + 0) * 2 := by omega
      rw [hn, unitsOfRank_normal (exponent + 1) hpos, hr, unitsOfRank_normal exponent hf,
        Nat.pow_succ', ← Nat.mul_assoc]
      exact Nat.mul_lt_mul_of_pos_right hstep hpow

theorem unitsOfRank_strictMono : StrictMono unitsOfRank :=
  strictMono_nat_of_lt_succ unitsOfRank_lt_succ

theorem unitsOfRank_lt_iff : unitsOfRank m < unitsOfRank n ↔ m < n :=
  unitsOfRank_strictMono.lt_iff_lt

/-- The number that a size stands for; the least positive double is `2 ^ (-1074)`. -/
noncomputable def Magnitude.size (m : Magnitude) : EReal :=
  if m.rank < infinityRank then ((unitsOfRank m.rank / 2 ^ 1074 : ℝ) : EReal) else ⊤

theorem Magnitude.size_lt_iff {m n : Magnitude} : m.size < n.size ↔ m.rank < n.rank := by
  have hm := m.rank_le
  have hn := n.rank_le
  unfold size
  split
  · split
    · rw [EReal.coe_lt_coe_iff, div_lt_div_iff_of_pos_right (by positivity), Nat.cast_lt,
        unitsOfRank_lt_iff]
    · refine iff_of_true (EReal.coe_lt_top _) ?_
      omega
  · refine iff_of_false not_top_lt ?_
    omega

theorem Magnitude.size_zero : zero.size = 0 := by
  have h0 : unitsOfRank zero.rank = 0 := rfl
  rw [size, if_pos (by decide), h0, Nat.cast_zero, zero_div, EReal.coe_zero]

theorem Magnitude.size_pos_iff {m : Magnitude} : 0 < m.size ↔ 0 < m.rank := by
  rw [← size_zero]
  exact size_lt_iff

theorem Magnitude.size_nonneg (m : Magnitude) : 0 ≤ m.size := by
  rw [← size_zero]
  exact not_lt.1 fun h => Nat.not_lt_zero _ (size_lt_iff.1 h)

theorem Magnitude.neg_size_lt_size_iff {m n : Magnitude} :
    -m.size < n.size ↔ 0 < m.rank ∨ 0 < n.rank := by
  constructor
  · intro h
    by_contra hz
    rw [not_or, ← size_pos_iff, ← size_pos_iff, not_lt, not_lt] at hz
    have hm := EReal.neg_nonneg.2 hz.1
    exact absurd (hz.2.trans hm) (not_le.2 h)
  · rintro (h | h)
    · exact (EReal.neg_lt_zero.2 (size_pos_iff.2 h)).trans_le n.size_nonneg
    · exact (EReal.neg_le_zero.2 m.size_nonneg).trans_lt (size_pos_iff.2 h)

/-- The number on the extended real line that a double stands for. -/
noncomputable def Binary64.value? : Binary64 → Option EReal
  | .nan => none
  | .signed false magnitude => some magnitude.size
  | .signed true magnitude => some (-magnitude.size)

/-- The places of two doubles are in the order of their values. -/
theorem Binary64.value_lt_iff {x y : Binary64} (hx : x.value? = some a) (hy : y.value? = some b)
    (hp : x.place? = some p) (hq : y.place? = some q) : a < b ↔ p < q := by
  cases x with
  | nan => cases hx
  | signed s m =>
    cases y with
    | nan => cases hy
    | signed t n =>
      cases s <;> cases t <;> cases hx <;> cases hy <;> cases hp <;> cases hq
      · rw [Magnitude.size_lt_iff, Int.ofNat_lt]
      · refine iff_of_false (not_lt.2 ?_) (by omega)
        exact (EReal.neg_le_zero.2 n.size_nonneg).trans m.size_nonneg
      · rw [Magnitude.neg_size_lt_size_iff]
        omega
      · rw [EReal.neg_lt_neg_iff, Magnitude.size_lt_iff]
        omega

theorem compare_eq_compare [LinearOrder α] [LinearOrder β] {a b : α} {p q : β}
    (hl : a < b ↔ p < q) (hg : b < a ↔ q < p) : compare a b = compare p q := by
  rcases lt_trichotomy p q with h | h | h
  · rw [compare_lt_iff_lt.2 h, compare_lt_iff_lt.2 (hl.2 h)]
  · have hle := not_lt.1 (hg.not.2 h.symm.not_lt)
    have hab : a = b := le_antisymm hle (not_lt.1 (hl.not.2 h.not_lt))
    rw [compare_eq_iff_eq.2 h, compare_eq_iff_eq.2 hab]
  · rw [compare_gt_iff_gt.2 h, compare_gt_iff_gt.2 (hg.2 h)]

/-- Doubles are compared by their values. -/
theorem Binary64.compare?_of_value {x y : Binary64} (hx : x.value? = some a)
    (hy : y.value? = some b) : x.compare? y = some (compare a b) := by
  cases hp : x.place? with
  | none => cases x with
    | nan => cases hx
    | signed s => cases s <;> cases hp
  | some p =>
    cases hq : y.place? with
    | none => cases y with
      | nan => cases hy
      | signed t => cases t <;> cases hq
    | some q =>
      rw [compare_eq_compare (value_lt_iff hx hy hp hq) (value_lt_iff hy hx hq hp)]
      simp only [compare?, hp, hq]

theorem Binary64.eq_nan_of_value? {x : Binary64} (h : x.value? = none) : x = nan := by
  cases x with
  | nan => rfl
  | signed s => cases s <;> cases h

end Eligibility
