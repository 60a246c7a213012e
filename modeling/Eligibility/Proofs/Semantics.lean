import Eligibility.Proofs.ExactValue
import Eligibility.Rule.Evaluation

namespace Eligibility
set_option autoImplicit true

/-- The relation on numbers that a comparison sign stands for. -/
def Comparator.Relates : Comparator → EReal → EReal → Prop
  | .greater, a, b => a > b
  | .less, a, b => a < b
  | .equal, a, b => a = b
  | .greaterEqual, a, b => a ≥ b
  | .lessEqual, a, b => a ≤ b
  | .and, _, _ | .or, _, _ => False

/-- The comparison of two doubles by their exact values. It fails for a NaN whatever the sign. -/
def Comparator.Holds (c : Comparator) (x y : Binary64) : Prop :=
  ∃ a b, x.value? = some a ∧ y.value? = some b ∧ c.Relates a b

variable {c : Comparator} {test : Ordering → Bool}

theorem Comparator.test_compare_iff (ht : c.test? = some test) (a b : EReal) :
    test (compare a b) = true ↔ c.Relates a b := by
  rcases lt_trichotomy a b with h | h | h
  · rw [compare_lt_iff_lt.2 h]
    cases c <;> cases ht <;> simp [Relates, h.le, h.ne, h.not_ge, h.not_gt, h]
  · rw [compare_eq_iff_eq.2 h]
    cases c <;> cases ht <;> simp [Relates, h]
  · rw [compare_gt_iff_gt.2 h]
    cases c <;> cases ht <;> simp [Relates, h.le, h.ne', h.not_ge, h.not_gt, h]

theorem Comparator.any_test_iff (ht : c.test? = some test) (x y : Binary64) :
    (x.compare? y).any test = true ↔ c.Holds x y := by
  cases hx : x.value? with
  | none => 
    rw [Binary64.eq_nan_of_value? hx, Binary64.compare?_nan_left]
    exact iff_of_false nofun fun ⟨_, _, hn, _⟩ => by cases hn
  | some a =>
    cases hy : y.value? with
    | none =>
      rw [Binary64.eq_nan_of_value? hy, Binary64.compare?_nan_right]
      exact iff_of_false nofun fun ⟨_, _, _, hn, _⟩ => by cases hn
    | some b =>
      rw [Binary64.compare?_of_value hx hy, Option.any_some, test_compare_iff ht]
      constructor
      · intro h
        exact ⟨a, b, hx, hy, h⟩
      · rintro ⟨_, _, ha, hb, h⟩
        cases hx.symm.trans ha
        cases hy.symm.trans hb
        exact h

theorem Comparator.not_relates (ht : c.test? = none) {a b : EReal} : ¬ c.Relates a b := by
  cases c with
  | and => exact id
  | or => exact id
  | greater | less | equal | greaterEqual | lessEqual => cases ht

instance (c : Comparator) (x y : Binary64) : Decidable (c.Holds x y) :=
  match ht : c.test? with
  | some _ => decidable_of_iff _ (c.any_test_iff ht x y)
  | none => .isFalse fun ⟨_, _, _, _, hr⟩ => c.not_relates ht hr

/-- The finite double that a literal denotes, blanks at the ends of a text apart. -/
def Literal.double? : Literal → Option Binary64
  | .number value => some (.ofInt value.toNat)
  | .text value => (Binary64.read (trimBlanks value.toList)).filter Binary64.isFinite

/-- The text that a literal denotes; a number is written without leading zeros. -/
def Literal.spelling : Literal → String
  | .number value => toString value.toNat
  | .text value => value

def Literal.numericFault? (value : Literal) : Option EvaluationError :=
  if value.double?.isSome then none else some (.nonNumericLiteral value.spelling)

def Comparator.fault? (c : Comparator) (supported : Bool) (context : ComparatorContext) :
    Option EvaluationError :=
  if supported then none else some (.unsupportedComparator c context)

/-- The fault of the topmost node of a rule. -/
def Rule.nodeFault? : Rule → Option EvaluationError
  | .operand field comparator value =>
    match Field.ofName? field with
    | none => some (.unknownField field)
    | some .department => comparator.fault? (comparator = .equal) .textField
    | some .age | some .salary | some .experience =>
      value.numericFault?.or (comparator.fault? (!comparator.isConnective) .operandNode)
  | .operator connective _ _ => connective.fault? connective.isConnective .operatorNode

/-- The nodes of a rule, each as the topmost one of its part, from left to right and with the
children before their parent. -/
def Rule.postorder : Rule → List Rule
  | .operand field comparator value => [.operand field comparator value]
  | .operator connective left right =>
    left.postorder ++ (right.postorder ++ [.operator connective left right])

def Rule.firstError? (rule : Rule) : Option EvaluationError :=
  rule.postorder.findSome? nodeFault?

/-- Whether a field with this value meets a comparison with the literal. -/
def FieldValue.Meets (comparator : Comparator) (value : Literal) : FieldValue → Prop
  | .number own => ∃ literal ∈ value.double?, comparator.Holds own literal
  | .text own => own = value.spelling

/-- The rule as a formula on the record. -/
def Rule.Holds (record : Record) : Rule → Prop
  | .operand field comparator value =>
    ∃ fieldValue ∈ record.get? field, fieldValue.Meets comparator value
  | .operator .and left right => left.Holds record ∧ right.Holds record
  | .operator .or left right => left.Holds record ∨ right.Holds record
  | .operator _ _ _ => False

instance (comparator : Comparator) (value : Literal) :
    DecidablePred (FieldValue.Meets comparator value)
  | .number own =>
    inferInstanceAs (Decidable (∃ literal ∈ value.double?, comparator.Holds own literal))
  | .text own => inferInstanceAs (Decidable (own = value.spelling))

instance Rule.decidableHolds (record : Record) : DecidablePred (Rule.Holds record)
  | .operand field comparator value =>
    inferInstanceAs
      (Decidable (∃ fieldValue ∈ record.get? field, fieldValue.Meets comparator value))
  | .operator connective left right =>
    have := decidableHolds record left
    have := decidableHolds record right
    match connective with
    | .and => inferInstanceAs (Decidable (left.Holds record ∧ right.Holds record))
    | .or => inferInstanceAs (Decidable (left.Holds record ∨ right.Holds record))
    | .greater | .less | .equal | .greaterEqual | .lessEqual => .isFalse id

/-- A fault if there is one, and otherwise whether the condition holds. -/
def verdict (fault? : Option EvaluationError) (holds : Prop) [Decidable holds] :
    Except EvaluationError Bool :=
  match fault? with
  | some fault => .error fault
  | none => .ok (decide holds)

theorem Literal.toBinary64_eq (value : Literal) :
    value.toBinary64 = match value.double? with
      | some double => .ok double
      | none => .error (.nonNumericLiteral value.spelling) := by
  cases value with
  | number value => rfl
  | text value =>
    simp only [toBinary64, double?, spelling]
    cases Binary64.read (trimBlanks value.toList) with
    | none => rfl
    | some double => cases hf : double.isFinite <;> simp only [hf, Option.filter] <;> rfl

theorem Literal.toText_eq (value : Literal) : value.toText = value.spelling := by
  cases value with
  | number value => rfl
  | text value => rfl

theorem compareNumbers_eq (c : Comparator) (own literal : Binary64) :
    compareNumbers c own literal =
      verdict (c.fault? (!c.isConnective) .operandNode) (c.Holds own literal) := by
  cases ht : c.test? with
  | none =>
    cases c with
    | and | or => rfl
    | greater | less | equal | greaterEqual | lessEqual => cases ht
  | some test =>
    have hc : c.isConnective = false := by
      cases c with
      | and | or => cases ht
      | greater | less | equal | greaterEqual | lessEqual => rfl
    have hh : (own.compare? literal).any test = decide (c.Holds own literal) := by
      rw [Bool.eq_iff_iff, c.any_test_iff ht, decide_eq_true_iff]
    simp only [compareNumbers, ht, hh, Comparator.fault?, hc]
    rfl

theorem verdict_congr {p q : Prop} [Decidable p] [Decidable q] (h : p ↔ q)
    (fault? : Option EvaluationError) : verdict fault? p = verdict fault? q := by
  simp only [verdict, h]

theorem evaluateNumber_eq (c : Comparator) (value : Literal) (own : Binary64) :
    (match value.toBinary64 with
      | .error error => .error error
      | .ok literal => compareNumbers c own literal) =
      verdict (value.numericFault?.or (c.fault? (!c.isConnective) .operandNode))
        ((FieldValue.number own).Meets c value) := by
  rw [value.toBinary64_eq, Literal.numericFault?]
  cases hd : value.double? with
  | none => rfl
  | some literal =>
    have hm : c.Holds own literal ↔ (FieldValue.number own).Meets c value := by
      simp only [FieldValue.Meets, hd, Option.mem_def, Option.some.injEq, exists_eq_left']
    rw [← verdict_congr hm]
    exact compareNumbers_eq c own literal

theorem compareTexts_eq (c : Comparator) (value : Literal) (own : String) :
    compareTexts c own value.toText =
      verdict (c.fault? (c = .equal) .textField) ((FieldValue.text own).Meets c value) := by
  rw [value.toText_eq]
  cases c with
  | equal => rfl
  | and | or | greater | less | greaterEqual | lessEqual => rfl

theorem Rule.holds_operand (h : record.get? field = some fieldValue) :
    (operand field c value).Holds record ↔ fieldValue.Meets c value := by
  simp only [Holds, h, Option.mem_def, Option.some.injEq, exists_eq_left']

theorem evaluateOperand_eq (field : String) (c : Comparator) (value : Literal)
    (record : Record) :
    evaluateOperand field c value record =
      verdict (Rule.operand field c value).nodeFault?
        ((Rule.operand field c value).Holds record) := by
  have hget : record.get? field = (Field.ofName? field).map record.field := rfl
  cases hf : Field.ofName? field with
  | none =>
    rw [hf] at hget
    simp only [evaluateOperand, hget, Rule.nodeFault?, hf]
    rfl
  | some known =>
    rw [hf, Option.map_some] at hget
    rw [verdict_congr (Rule.holds_operand hget)]
    cases known with
    | age | salary | experience =>
      simp only [evaluateOperand, hget, Rule.nodeFault?, hf]
      exact evaluateNumber_eq c value _
    | department =>
      simp only [evaluateOperand, hget, Rule.nodeFault?, hf]
      exact compareTexts_eq c value _

theorem Rule.firstError?_operator (connective : Comparator) (left right : Rule) :
    (operator connective left right).firstError? = left.firstError?.or
      (right.firstError?.or (operator connective left right).nodeFault?) := by
  simp only [firstError?, postorder, List.findSome?_append, List.findSome?_singleton]

theorem joinVerdicts_eq (connective : Comparator) (left right : Rule) (record : Record) :
    joinVerdicts connective (decide (left.Holds record)) (decide (right.Holds record)) =
      verdict (Rule.operator connective left right).nodeFault?
        ((Rule.operator connective left right).Holds record) := by
  cases connective with
  | and => exact congrArg Except.ok (Bool.decide_and _ _).symm
  | or => exact congrArg Except.ok (Bool.decide_or _ _).symm
  | greater | less | equal | greaterEqual | lessEqual => rfl

/-- Evaluation is a check of the rule alone, which reports the first faulty node, followed by the
truth of the rule as a formula on the record. -/
theorem Rule.evaluate_eq_verdict (rule : Rule) (record : Record) :
    rule.evaluate record = verdict rule.firstError? (rule.Holds record) := by
  induction rule with
  | operand field comparator value =>
    rw [evaluate, evaluateOperand_eq, firstError?, postorder, List.findSome?_singleton]
  | operator connective left right ihl ihr =>
    rw [evaluate, ihl, ihr, firstError?_operator]
    cases left.firstError? with
    | some fault => rfl
    | none =>
      cases right.firstError? with
      | some fault => rfl
      | none => exact joinVerdicts_eq connective left right record

end Eligibility
