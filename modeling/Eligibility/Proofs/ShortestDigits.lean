import Eligibility.Proofs.ReadBack
import Eligibility.Proofs.RoundingError
import Eligibility.Binary64.Scaling

namespace Eligibility
set_option autoImplicit true

variable {m : Magnitude} {d : Decimal} {numerator denominator : Nat}

/-- The search by increasing length ends at the first length that has a result. -/
theorem exists_findSome?_range' {f : Nat → Option α} (hlow : start ≤ k) (hhigh : k < start + count)
    (h : (f k).isSome) : ∃ j d, start ≤ j ∧ j ≤ k ∧ f j = some d ∧
      (List.range' start count).findSome? f = some d := by
  induction count generalizing start with
  | zero => omega
  | succ count ih =>
    rw [List.range'_succ, List.findSome?_cons]
    cases hf : f start with
    | some d => exact ⟨start, d, Nat.le_refl _, hlow, hf, rfl⟩
    | none =>
      have hne : start ≠ k := by
        rintro rfl
        rw [hf] at h
        cases h
      have hnext : start + 1 ≤ k := by omega
      obtain ⟨j, d, hj, hle, hd, hfound⟩ := ih hnext (by omega)
      exact ⟨j, d, by omega, hle, hd, hfound⟩

theorem nearestRank_eq_of_lt (hd : 0 < denominator)
    (hlow : ∀ lower, lower + 1 = rank →
      (unitsOfRank lower + unitsOfRank (lower + 1)) * denominator < 2 * numerator)
    (hhigh : 2 * numerator < (unitsOfRank rank + unitsOfRank (rank + 1)) * denominator) :
    nearestRank numerator denominator = rank := by
  apply Nat.le_antisymm (nearestRank_le_of_lt hd hhigh)
  by_contra hlt
  obtain ⟨steps, hrank⟩ := Nat.exists_eq_add_of_lt (Nat.lt_of_not_le hlt)
  have hmiddle := le_middle_above numerator hd
  generalize nearestRank numerator denominator = nearest at hrank hmiddle
  have hlower := hlow (nearest + steps) hrank.symm
  have hrank' := unitsOfRank_strictMono.monotone (Nat.le_add_right nearest steps)
  have hnext := unitsOfRank_strictMono.monotone
    (Nat.add_le_add_right (Nat.le_add_right nearest steps) 1)
  have hle := Nat.mul_le_mul_right denominator (Nat.add_le_add hrank' hnext)
  omega

/-- What is less than half of a gap away from a size is rounded to this size. -/
theorem nearestRank_eq_of_near (hd : 0 < denominator)
    (hlow : 2 * (unitsOfRank (lower + 1) * denominator) <
      2 * numerator + rankGap lower * denominator)
    (hhigh : 2 * numerator < 2 * (unitsOfRank (lower + 1) * denominator) +
      rankGap lower * denominator) :
    nearestRank numerator denominator = lower + 1 := by
  have hgap := Nat.mul_le_mul_right denominator (rankGap_mono (Nat.le_add_right lower 1))
  apply nearestRank_eq_of_lt hd
  · intro below hbelow
    obtain rfl := Nat.add_right_cancel hbelow
    rw [unitsOfRank_succ] at hlow ⊢
    simp only [Nat.add_mul] at hlow ⊢
    omega
  · rw [unitsOfRank_succ (lower + 1)]
    simp only [Nat.add_mul] at hhigh ⊢
    omega

/-- The least positive double. -/
def Magnitude.least : Magnitude := ⟨1, by decide⟩

/-- The gap below a size, counted like its expansion. -/
def Magnitude.expansionGap (m : Magnitude) : Nat :=
  rankGap (m.rank - 1) * least.expansion

/-- A decimal reads back if it is less than half of the gap away from the expansion. -/
theorem Magnitude.readsBack_of_near (hpos : 0 < m.rank)
    (hlow : 2 * m.expansion < 2 * (c * powerOfTen dropped) + m.expansionGap)
    (hhigh : 2 * (c * powerOfTen dropped) < 2 * m.expansion + m.expansionGap) :
    m.readsBack ⟨c, (dropped : Int) - 1074⟩ = true := by
  obtain ⟨places, hunit, hexponent, hexpansion⟩ := exists_places
  obtain ⟨lower, hrank⟩ := Nat.exists_eq_succ_of_ne_zero (Nat.ne_of_gt hpos)
  have hleast : least.expansion = 5 ^ places := (hexpansion least).trans (Nat.one_mul _)
  have hshift : (dropped : Int) - 1074 = -places + dropped := by omega
  rw [expansionGap, hexpansion, hleast, hrank, powerOfTen, Nat.pow_eq] at hlow hhigh
  have hnear := nearestRank_eq_of_near (Nat.pow_pos (by decide)) hlow hhigh
  apply decide_eq_true
  rw [hshift, ← ofDecimal_shift, ofDecimal_places _ hunit]
  rw [← Nat.succ_eq_add_one, ← hrank] at hnear
  cases m with
  | mk rank hle => simp only [nearest, hnear, Nat.min_eq_left hle]

/-- The expansion of the least positive double has more than 750 digits. -/
theorem Magnitude.powerOfTen_lt_expansion : powerOfTen 750 < least.expansion := by
  decide +kernel

/-- A step in the seventeenth digit is less than the gap, like one behind the digits that all
subnormal sizes need. -/
theorem Magnitude.step_lt_expansionGap (hpos : 0 < m.rank)
    (h : dropped ≤ 750 ∨ powerOfTen (dropped + 16) ≤ m.expansion) :
    powerOfTen dropped < m.expansionGap := by
  obtain ⟨lower, hrank⟩ := Nat.exists_eq_succ_of_ne_zero (Nat.ne_of_gt hpos)
  have hleast : 0 < least.expansion :=
    Nat.lt_of_le_of_lt (Nat.zero_le _) powerOfTen_lt_expansion
  have hgap : 0 < m.expansionGap := Nat.mul_pos (rankGap_pos _) hleast
  rcases h with h | h
  · calc
      powerOfTen dropped ≤ powerOfTen 750 := powerOfTen_mono h
      _ < least.expansion := powerOfTen_lt_expansion
      _ ≤ m.expansionGap := Nat.le_mul_of_pos_left _ (rankGap_pos _)
  · have hexpansion : m.expansion = unitsOfRank (lower + 1) * least.expansion := by
      obtain ⟨places, -, -, hexpansion⟩ := exists_places
      rw [hexpansion, hexpansion least, hrank]
      exact congrArg _ (Nat.one_mul _).symm
    have hbits : m.expansion ≤ 2 ^ 53 * m.expansionGap := by
      rw [hexpansion, expansionGap, hrank, ← Nat.mul_assoc]
      exact Nat.mul_le_mul_right _ (unitsOfRank_succ_le lower)
    apply Nat.lt_of_mul_lt_mul_right (a := 10 ^ 16)
    calc
      powerOfTen dropped * 10 ^ 16 = powerOfTen (dropped + 16) := (Nat.pow_add 10 dropped 16).symm
      _ ≤ m.expansion := h
      _ ≤ 2 ^ 53 * m.expansionGap := hbits
      _ < m.expansionGap * 10 ^ 16 := by omega

/-- Where the step is less than the gap, a neighbour reads back. -/
theorem Magnitude.neighbour?_isSome (hpos : 0 < m.rank)
    (h : powerOfTen dropped < m.expansionGap) : (m.neighbour? dropped).isSome := by
  have hdiv := Nat.div_add_mod' m.expansion (powerOfTen dropped)
  have hmod := Nat.mod_lt m.expansion (powerOfTen_pos dropped)
  have hfits : m.readsBack ⟨m.expansion / powerOfTen dropped, (dropped : Int) - 1074⟩ = true ∨
      m.readsBack ⟨m.expansion / powerOfTen dropped + 1, (dropped : Int) - 1074⟩ = true := by
    by_cases hnear : 2 * (m.expansion % powerOfTen dropped) ≤ powerOfTen dropped
    · left
      apply readsBack_of_near hpos <;> omega
    · right
      apply readsBack_of_near hpos <;> rw [Nat.add_mul, Nat.one_mul] <;> omega
  unfold neighbour?
  dsimp only
  rcases hfits with hlow | hhigh
  · simp only [hlow, Bool.true_and, if_true]
    split
    · split <;> rfl
    · rfl
  · simp only [hhigh, Bool.and_true, if_true]
    split
    · split <;> rfl
    · rfl

/-- A neighbour keeps the digits before the dropped ones, or the next number after these. -/
theorem Magnitude.significand_of_neighbour? (h : m.neighbour? dropped = some d) :
    d.significand ≤ m.expansion / powerOfTen dropped + 1 ∧ d.exponent = dropped - 1074 := by
  unfold neighbour? at h
  dsimp only at h
  split at h
  · split at h <;> cases h
    · exact ⟨Nat.le_succ _, rfl⟩
    · exact ⟨Nat.le_refl _, rfl⟩
  · split at h
    · cases h
      exact ⟨Nat.le_succ _, rfl⟩
    · split at h
      · cases h
        exact ⟨Nat.le_refl _, rfl⟩
      · cases h

theorem Decimal.stripped_bounds (significand : Nat) (exponent : Int) :
    (stripped significand exponent).significand ≤ significand ∧
      exponent ≤ (stripped significand exponent).exponent := by
  fun_induction stripped significand exponent with
  | case1 significand exponent h ih =>
    exact ⟨ih.1.trans (Nat.div_le_self _ _), by omega⟩
  | case2 => exact ⟨Nat.le_refl _, Int.le_refl _⟩

theorem length_decimalDigits_le_iff (h : 0 < k) :
    (decimalDigits n).length ≤ k ↔ n < powerOfTen k :=
  Nat.length_toDigits_le_iff (by decide) h

theorem powerOfTen_length (h : 1 < (decimalDigits n).length) :
    powerOfTen ((decimalDigits n).length - 1) ≤ n ∧ n < powerOfTen (decimalDigits n).length := by
  constructor
  · apply Nat.le_of_not_lt
    intro hlt
    have hlength := (length_decimalDigits_le_iff (Nat.sub_pos_of_lt h)).2 hlt
    omega
  · exact (length_decimalDigits_le_iff (Nat.zero_lt_of_lt h)).1 (Nat.le_refl _)

theorem Magnitude.least_expansion_le (hpos : 0 < m.rank) : least.expansion ≤ m.expansion := by
  obtain ⟨places, -, -, hexpansion⟩ := exists_places
  rw [hexpansion, hexpansion]
  exact Nat.mul_le_mul_right _ (unitsOfRank_strictMono.monotone hpos)

/-- Every size but zero has a neighbour of at most seventeen digits that reads back, and the first
that is found drops all digits but those that a subnormal size needs, or more. -/
theorem Magnitude.exists_neighbour (hpos : 0 < m.rank) : ∃ d,
    ((List.range' 1 17).findSome? fun digits =>
      m.neighbour? ((decimalDigits m.expansion).length - digits)) = some d ∧
    d.significand ≤ powerOfTen 17 ∧ -324 ≤ d.exponent := by
  have hleast := Nat.lt_of_lt_of_le powerOfTen_lt_expansion (least_expansion_le hpos)
  have hlong : 750 < (decimalDigits m.expansion).length := by
    rw [← Nat.not_le, length_decimalDigits_le_iff (by decide)]
    exact Nat.lt_asymm hleast
  clear hleast
  obtain ⟨hlow, hhigh⟩ := powerOfTen_length (Nat.lt_trans (by decide) hlong)
  generalize hlength : (decimalDigits m.expansion).length = length at hlong hlow hhigh
  -- The step that seventeen digits leave, but no finer than what the subnormal sizes need.
  obtain ⟨digits, hdigits, hfew, hstep⟩ : ∃ digits, 1 ≤ digits ∧ digits ≤ 17 ∧
      750 ≤ length - digits ∧
      (length - digits ≤ 750 ∨ powerOfTen (length - digits + 16) ≤ m.expansion) := by
    by_cases hfew : length ≤ 767
    · exact ⟨length - 750, by omega, by omega, by omega, .inl (by omega)⟩
    · refine ⟨17, by decide, Nat.le_refl _, by omega, .inr ?_⟩
      have hlast : length - 17 + 16 = length - 1 := by omega
      rwa [hlast]
  have hcount : digits < 1 + 17 := by omega
  obtain ⟨shorter, d, hone, hle, hd, hfound⟩ := exists_findSome?_range'
    (f := fun digits => m.neighbour? (length - digits)) hdigits hcount
    (neighbour?_isSome hpos (step_lt_expansionGap hpos hstep.2))
  obtain ⟨hsignificand, hexponent⟩ := significand_of_neighbour? hd
  refine ⟨d, hfound, ?_, ?_⟩
  · have hsplit : powerOfTen length = powerOfTen (length - shorter) * powerOfTen shorter := by
      have hsum : length = length - shorter + shorter := by omega
      exact (congrArg powerOfTen hsum).trans (Nat.pow_add 10 _ _)
    rw [hsplit] at hhigh
    exact hsignificand.trans ((Nat.succ_le_of_lt (Nat.div_lt_of_lt_mul hhigh)).trans
      (powerOfTen_mono (Nat.le_trans hle hfew)))
  · omega

theorem Magnitude.shortest_zero : shortest .zero = ⟨0, 0⟩ := by
  decide +kernel

theorem Magnitude.rank_pos_of_ne_zero (h : m ≠ .zero) : 0 < m.rank := by
  apply Nat.pos_of_ne_zero
  intro hzero
  cases m with
  | mk rank hle =>
    obtain rfl : rank = 0 := hzero
    exact h rfl

theorem Magnitude.shortest_of_found (h : ((List.range' 1 17).findSome? fun digits =>
      m.neighbour? ((decimalDigits m.expansion).length - digits)) = some d) :
    m.shortest =
      if d.significand = 0 then ⟨0, 0⟩ else .stripped d.significand d.exponent := by
  rw [shortest, h, Option.getD_some]

/-- Seventeen digits are enough for every size, and no power of ten below that of the least double
is needed. -/
theorem Magnitude.shortest_bounds (m : Magnitude) :
    m.shortest.significand ≤ powerOfTen 17 ∧ -324 ≤ m.shortest.exponent := by
  by_cases hzero : m = .zero
  · rw [hzero, shortest_zero]
    exact ⟨Nat.zero_le _, by decide⟩
  · obtain ⟨d, hfound, hsignificand, hexponent⟩ := exists_neighbour (rank_pos_of_ne_zero hzero)
    have hstripped := Decimal.stripped_bounds d.significand d.exponent
    rw [shortest_of_found hfound]
    split
    · exact ⟨Nat.zero_le _, by decide⟩
    · exact ⟨hstripped.1.trans hsignificand, hexponent.trans hstripped.2⟩

/-- A finite double has no power of ten beyond the highest one. -/
theorem Magnitude.exponent_le_of_finite (hpos : 0 < d.significand)
    (h : (ofDecimal d).rank < infinityRank) : d.exponent ≤ maxTen := by
  obtain ⟨significand, exponent⟩ := d
  cases exponent with
  | negSucc power =>
    exact Int.le_trans (Int.le_of_lt (Int.negSucc_lt_zero _)) (Int.natCast_nonneg _)
  | ofNat power =>
    by_contra hlt
    have hpower : maxTen + 1 ≤ power := by
      have hlt' : ¬ (power : Int) ≤ maxTen := hlt
      omega
    have hlarge : unitsOfRank infinityRank ≤ powerOfTen (maxTen + 1) * unitsPerOne := by
      decide +kernel
    have hreach : unitsOfRank infinityRank * 1 ≤ significand * 10 ^ power * unitsPerOne := by
      rw [Nat.mul_one]
      apply hlarge.trans
      apply Nat.mul_le_mul_right
      exact (powerOfTen_mono hpower).trans (Nat.le_mul_of_pos_left _ hpos)
    have hrank := le_nearestRank hreach Nat.one_pos
    rw [ofDecimal_ofNat, nearest] at h
    exact absurd h (Nat.not_lt_of_le (Nat.le_min.2 ⟨hrank, Nat.le_refl _⟩))

end Eligibility
