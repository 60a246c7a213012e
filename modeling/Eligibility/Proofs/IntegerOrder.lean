import Eligibility.Proofs.Monotonicity

namespace Eligibility
set_option autoImplicit true

variable {m n : Nat} {c : Comparator} {test : Ordering → Bool}

/-- Below `2 ^ 53` no integer shares its double with a greater one. -/
theorem Magnitude.rank_ofNat_strictMono (h : m < n) (hm : m < 2 * binadeSize) :
    (ofNat m).rank < (ofNat n).rank := by
  have hstep : (ofNat m).rank < (ofNat (m + 1)).rank := by
    rw [← unitsOfRank_lt_iff, unitsOfRank_ofNat_small (Nat.le_of_lt hm),
      unitsOfRank_ofNat_small hm]
    exact Nat.mul_lt_mul_of_pos_right (Nat.lt_succ_self m) (by decide)
  exact Nat.lt_of_lt_of_le hstep (rank_ofNat_mono h)

theorem Binary64.ofInt_lt_ofInt {k l : Int} (h : k < l) (hk : k < 2 ^ 53) (hl : -2 ^ 53 < l) :
    Comparator.less.Holds (ofInt k) (ofInt l) := by
  have hsize : (2 : Int) ^ 53 = (2 * binadeSize : Nat) := rfl
  refine ⟨_, _, value?_ofInt k, value?_ofInt l, ?_⟩
  simp only [Comparator.Relates]
  split
  · split
    · apply EReal.neg_lt_neg_iff.2
      exact Magnitude.size_lt_iff.2 (Magnitude.rank_ofNat_strictMono (by omega) (by omega))
    · apply Magnitude.neg_size_lt_size_iff.2
      have hpos := Magnitude.rank_ofNat_strictMono (m := 0) (n := k.natAbs) (by omega) (by decide)
      exact .inl (Nat.zero_lt_of_lt hpos)
  · rw [if_neg (by omega)]
    exact Magnitude.size_lt_iff.2 (Magnitude.rank_ofNat_strictMono (by omega) (by omega))

theorem Comparator.holds_iff {x y : Binary64} (hx : x.value? = some a) (hy : y.value? = some b) :
    c.Holds x y ↔ c.Relates a b := by
  constructor
  · rintro ⟨_, _, ha, hb, h⟩
    cases hx.symm.trans ha
    cases hy.symm.trans hb
    exact h
  · intro h
    exact ⟨a, b, hx, hy, h⟩

/-- Rounding can only make an integer equal to a natural number from which it differs, and if one of
the two is below `2 ^ 53` it does not. -/
theorem Binary64.compare?_ofInt (k : Int) (n : Nat) :
    ∃ order, (ofInt k).compare? (ofInt n) = some order ∧
      (order = compare k (n : Int) ∨ order = .eq) ∧
      (k < 2 ^ 53 ∨ (n : Int) < 2 ^ 53 → order = compare k (n : Int)) := by
  obtain ⟨a, b, ha, hb⟩ : ∃ a b, (ofInt k).value? = some a ∧ (ofInt n).value? = some b :=
    ⟨_, _, value?_ofInt k, value?_ofInt n⟩
  have hle : k ≤ n → a ≤ b := fun h => (Comparator.holds_iff ha hb).1 (ofInt_le_ofInt h)
  have hge : n ≤ k → b ≤ a := fun h => (Comparator.holds_iff hb ha).1 (ofInt_le_ofInt h)
  refine ⟨compare a b, compare?_of_value ha hb, ?_, ?_⟩
  · rcases lt_trichotomy k n with h | h | h
    · rw [compare_lt_iff_lt.2 h]
      rcases (hle h.le).lt_or_eq with hlt | heq
      · exact .inl (compare_lt_iff_lt.2 hlt)
      · exact .inr (compare_eq_iff_eq.2 heq)
    · exact .inr (compare_eq_iff_eq.2 (le_antisymm (hle h.le) (hge h.ge)))
    · rw [compare_gt_iff_gt.2 h]
      rcases (hge h.le).lt_or_eq with hlt | heq
      · exact .inl (compare_gt_iff_gt.2 hlt)
      · exact .inr (compare_eq_iff_eq.2 heq.symm)
  · intro hsmall
    have hlt : k < n → a < b := fun h =>
      (Comparator.holds_iff ha hb).1 (ofInt_lt_ofInt h (by omega) (by omega))
    have hgt : n < k → b < a := fun h =>
      (Comparator.holds_iff hb ha).1 (ofInt_lt_ofInt h (by omega) (by omega))
    apply compare_eq_compare
    · exact ⟨fun h => not_le.1 fun hk => (hge hk).not_gt h, hlt⟩
    · exact ⟨fun h => not_le.1 fun hk => (hle hk).not_gt h, hgt⟩

/-- What the comparison signs find in the order of two integers. -/
theorem tests_compare (k l : Int) :
    (compare k l).isGT = decide (k > l) ∧ (compare k l).isLT = decide (k < l) ∧
      (compare k l).isEq = decide (k = l) ∧ (compare k l).isGE = decide (k ≥ l) ∧
      (compare k l).isLE = decide (k ≤ l) := by
  rcases lt_trichotomy k l with h | h | h
  · rw [compare_lt_iff_lt.2 h]
    simp [h.le, h.ne, h.not_gt, h.not_ge, h]
  · rw [compare_eq_iff_eq.2 h]
    simp [h]
  · rw [compare_gt_iff_gt.2 h]
    simp [h.le, h.ne', h.not_gt, h.not_ge, h]

theorem Rule.evaluate_age_eq (ht : c.test? = some test) (record : Record) (n : UInt64) :
    (operand "age" c (.number n)).evaluate record =
      .ok (((Binary64.ofInt record.age.toInt).compare? (.ofInt n.toNat)).any test) := by
  have hget : record.get? "age" = some (.number (.ofInt record.age.toInt)) := rfl
  simp only [evaluate, evaluateOperand, hget, Literal.toBinary64, compareNumbers, ht]

/-- The comparison of an age with a number never turns the order of the two integers around. It is
exact as soon as one of them is below `2 ^ 53`, and otherwise differs from theirs only where
rounding makes them equal. -/
theorem Rule.evaluate_age_number (record : Record) (n : UInt64) :
    let age := record.age.toInt
    let number : Int := n.toNat
    let answer (c : Comparator) := (operand "age" c (.number n)).evaluate record
    (age < 2 ^ 53 ∨ number < 2 ^ 53 →
      answer .greater = .ok (decide (age > number)) ∧
      answer .less = .ok (decide (age < number)) ∧
      answer .equal = .ok (decide (age = number)) ∧
      answer .greaterEqual = .ok (decide (age ≥ number)) ∧
      answer .lessEqual = .ok (decide (age ≤ number))) ∧
    (answer .less = .ok true → age < number) ∧
    (answer .greater = .ok true → age > number) ∧
    (age = number → answer .equal = .ok true) ∧
    (age ≤ number → answer .lessEqual = .ok true) ∧
    (age ≥ number → answer .greaterEqual = .ok true) ∧
    ∃ order, (order = compare age number ∨ order = .eq) ∧
      ∀ c test, c.test? = some test → answer c = .ok (test order) := by
  intro age number answer
  obtain ⟨order, hcompare, horder, hexact⟩ := Binary64.compare?_ofInt age n.toNat
  have hanswer : ∀ c test, c.test? = some test → answer c = .ok (test order) := by
    intro c test ht
    have heval := evaluate_age_eq ht record n
    rwa [hcompare, Option.any_some] at heval
  obtain ⟨hgt, hlt, heq, hge, hle⟩ := tests_compare age number
  refine ⟨?_, ?_, ?_, ?_, ?_, ?_, order, horder, hanswer⟩
  all_goals
    simp only [hanswer .greater _ rfl, hanswer .less _ rfl, hanswer .equal _ rfl,
      hanswer .greaterEqual _ rfl, hanswer .lessEqual _ rfl, Except.ok.injEq]
  · intro hsmall
    rw [hexact hsmall]
    exact ⟨hgt, hlt, heq, hge, hle⟩
  · intro h
    rcases horder with rfl | rfl
    · exact of_decide_eq_true (hlt ▸ h)
    · cases h
  · intro h
    rcases horder with rfl | rfl
    · exact of_decide_eq_true (hgt ▸ h)
    · cases h
  · intro h
    rcases horder with rfl | rfl
    · exact heq.trans (decide_eq_true h)
    · rfl
  · intro h
    rcases horder with rfl | rfl
    · exact hle.trans (decide_eq_true h)
    · rfl
  · intro h
    rcases horder with rfl | rfl
    · exact hge.trans (decide_eq_true h)
    · rfl

/-- At `2 ^ 53 + 1` an age is equal to `2 ^ 53`, at which it is not yet equal to `2 ^ 53 - 1`; the
least age of all is below every number. -/
theorem Rule.evaluate_age_number_boundary :
    let answer (age : Int64) (c : Comparator) (n : UInt64) :=
      (operand "age" c (.number n)).evaluate ⟨age, "", .zero, .zero⟩
    answer 9007199254740992 .equal 9007199254740991 = .ok false ∧
      answer 9007199254740992 .greater 9007199254740991 = .ok true ∧
      answer 9007199254740993 .equal 9007199254740992 = .ok true ∧
      answer 9007199254740993 .greaterEqual 9007199254740992 = .ok true ∧
      answer (-9223372036854775808) .less 18446744073709551615 = .ok true := by
  intro answer
  have hexact := (evaluate_age_number ⟨9007199254740992, "", .zero, .zero⟩ 9007199254740991).1
    (.inr (by decide))
  have hleast := (evaluate_age_number ⟨-9223372036854775808, "", .zero, .zero⟩
    18446744073709551615).1 (.inl (by decide))
  have hrounded := evaluate_age_number ⟨9007199254740993, "", .zero, .zero⟩ 9007199254740992
  refine ⟨hexact.2.2.1, hexact.1, ?_, hrounded.2.2.2.2.2.1 (by decide), hleast.2.1⟩
  decide +kernel

end Eligibility
