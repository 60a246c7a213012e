import Eligibility.Proofs.Monotonicity

namespace Eligibility
set_option autoImplicit true

/-- The same number, the two zeros taken as one, or both no number. -/
def Binary64.Agrees (x y : Binary64) : Prop :=
  Comparator.equal.Holds x y ∨ x = nan ∧ y = nan

/-- The records show the same in a field. Ages need only be the same double. -/
def Record.AgreesIn (field : Field) (record other : Record) : Prop :=
  match field with
  | .age => (Binary64.ofInt record.age.toInt).Agrees (.ofInt other.age.toInt)
  | .department => record.department = other.department
  | .salary => record.salary.Agrees other.salary
  | .experience => record.experience.Agrees other.experience

/-- Some operand of the rule names the field. -/
def Rule.Mentions (field : Field) : Rule → Prop
  | .operand name _ _ => name = field.name
  | .operator _ left right => left.Mentions field ∨ right.Mentions field

instance (x y : Binary64) : Decidable (x.Agrees y) :=
  inferInstanceAs (Decidable (_ ∨ _ ∧ _))

instance (field : Field) (record other : Record) : Decidable (record.AgreesIn field other) :=
  match field with
  | .age =>
    inferInstanceAs (Decidable ((Binary64.ofInt record.age.toInt).Agrees (.ofInt other.age.toInt)))
  | .department => inferInstanceAs (Decidable (record.department = other.department))
  | .salary => inferInstanceAs (Decidable (record.salary.Agrees other.salary))
  | .experience => inferInstanceAs (Decidable (record.experience.Agrees other.experience))

instance Rule.decidableMentions (field : Field) : DecidablePred (Rule.Mentions field)
  | .operand name _ _ => inferInstanceAs (Decidable (name = field.name))
  | .operator _ left right =>
    have := decidableMentions field left
    have := decidableMentions field right
    inferInstanceAs (Decidable (left.Mentions field ∨ right.Mentions field))

variable {rule : Rule} {record other : Record} {field : Field} {x y : Binary64}
variable {c : Comparator} {value : Literal}

theorem Binary64.Agrees.value?_eq (h : x.Agrees y) : x.value? = y.value? := by
  rcases h with ⟨a, b, hx, hy, hab⟩ | ⟨rfl, rfl⟩
  · rw [hx, hy, show a = b from hab]
  · rfl

theorem Comparator.holds_congr (h : x.value? = y.value?) (literal : Binary64) :
    c.Holds x literal ↔ c.Holds y literal := by
  simp only [Holds, h]

theorem FieldValue.meets_congr (h : x.Agrees y) :
    (number x).Meets c value ↔ (number y).Meets c value := by
  simp only [Meets, Comparator.holds_congr h.value?_eq]

theorem Record.AgreesIn.meets_iff (h : record.AgreesIn field other) :
    (record.field field).Meets c value ↔ (other.field field).Meets c value := by
  cases field with
  | age => exact FieldValue.meets_congr h
  | department =>
    have hdepartment : record.department = other.department := h
    simp only [field, hdepartment]
  | salary => exact FieldValue.meets_congr h
  | experience => exact FieldValue.meets_congr h

theorem Rule.holds_operand_congr {name : String}
    (h : ∀ field, (operand name c value).Mentions field → record.AgreesIn field other) :
    (operand name c value).Holds record ↔ (operand name c value).Holds other := by
  have hget (record : Record) : record.get? name = (Field.ofName? name).map record.field := rfl
  cases hf : Field.ofName? name with
  | none => simp only [Holds, hget, hf, Option.map_none]
  | some field =>
    have hagree := h field (Field.name_of_ofName? hf)
    have hfield (record : Record) : record.get? name = some (record.field field) := by
      rw [hget, hf, Option.map_some]
    rw [holds_operand (hfield record), holds_operand (hfield other)]
    exact hagree.meets_iff

/-- The answer of a rule depends on nothing but the fields that its operands name, and on these only
up to what a comparison can tell apart. -/
theorem Rule.evaluate_of_agrees
    (h : ∀ field, rule.Mentions field → record.AgreesIn field other) :
    rule.evaluate record = rule.evaluate other := by
  induction rule with
  | operand name c value =>
    rw [evaluate, evaluate, evaluateOperand_eq, evaluateOperand_eq]
    exact verdict_congr (holds_operand_congr h) _
  | operator connective left right ihl ihr =>
    rw [evaluate, evaluate, ihl fun field hm => h field (.inl hm),
      ihr fun field hm => h field (.inr hm)]

/-- Two ages that round to one double, two NaNs and the two zeros make no difference, nor does a
department that is not asked for; under a name that is no field nothing at all counts. -/
theorem Rule.evaluate_of_agrees_edges :
    let rule : Rule := .operator .or (.operand "age" .less (.number 9007199254740993))
      (.operator .and (.operand "salary" .lessEqual (.text " 1e9 "))
        (.operand "experience" .greaterEqual (.number 0)))
    let unknown : Rule := .operand "team" .equal (.text "Sales")
    let record : Record := ⟨9007199254740992, "Sales", .nan, .zero⟩
    let other : Record := ⟨9007199254740993, "", .nan, .signed true .zero⟩
    (∀ field, rule.Mentions field → record.AgreesIn field other) ∧
      rule.evaluate record = rule.evaluate other ∧
      (∀ field, unknown.Mentions field → record.AgreesIn field .default) ∧
      unknown.evaluate record = unknown.evaluate .default := by
  intro rule unknown record other
  have hrule : ∀ field, rule.Mentions field → record.AgreesIn field other := by
    intro field
    cases field with
    | age | department | salary | experience => decide +kernel
  have hunknown : ∀ field, unknown.Mentions field → record.AgreesIn field .default := by
    intro field
    cases field with
    | age | department | salary | experience => decide +kernel
  exact ⟨hrule, evaluate_of_agrees hrule, hunknown, evaluate_of_agrees hunknown⟩

end Eligibility
