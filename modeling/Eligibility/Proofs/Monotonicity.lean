import Eligibility.Proofs.Nearest
import Eligibility.Proofs.Scanning
import Eligibility.Proofs.Semantics

namespace Eligibility
set_option autoImplicit true

/-- The order of two records in a numeric field: for the age that of the integers, and elsewhere
that of the doubles, in which a NaN has no place. -/
def Record.LeIn (field : Field) (low high : Record) : Prop :=
  match field with
  | .age => low.age ≤ high.age
  | .salary => Comparator.lessEqual.Holds low.salary high.salary
  | .experience => Comparator.lessEqual.Holds low.experience high.experience
  | .department => False

def Record.SameIn (field : Field) (record other : Record) : Prop :=
  match field with
  | .age => record.age = other.age
  | .salary => record.salary = other.salary
  | .experience => record.experience = other.experience
  | .department => record.department = other.department

/-- All comparisons of the field are made with one of these comparators. -/
def Rule.UsesOnly (comparators : List Comparator) (field : Field) : Rule → Prop
  | .operand name comparator _ => name = field.name → comparator ∈ comparators
  | .operator _ left right =>
    left.UsesOnly comparators field ∧ right.UsesOnly comparators field

/-- The change of the field is one that the rule can only reward: a rise of what it asks to be
great, a fall of what it asks to be small, or none. -/
def Rule.Favours (rule : Rule) (field : Field) (record changed : Record) : Prop :=
  rule.UsesOnly [.greater, .greaterEqual] field ∧ record.LeIn field changed ∨
    rule.UsesOnly [.less, .lessEqual] field ∧ changed.LeIn field record ∨
    record.SameIn field changed

instance (field : Field) (low high : Record) : Decidable (low.LeIn field high) :=
  match field with
  | .age => inferInstanceAs (Decidable (low.age ≤ high.age))
  | .salary => inferInstanceAs (Decidable (Comparator.lessEqual.Holds low.salary high.salary))
  | .experience =>
    inferInstanceAs (Decidable (Comparator.lessEqual.Holds low.experience high.experience))
  | .department => .isFalse id

instance (field : Field) (record other : Record) : Decidable (record.SameIn field other) :=
  match field with
  | .age => inferInstanceAs (Decidable (record.age = other.age))
  | .salary => inferInstanceAs (Decidable (record.salary = other.salary))
  | .experience => inferInstanceAs (Decidable (record.experience = other.experience))
  | .department => inferInstanceAs (Decidable (record.department = other.department))

instance Rule.decidableUsesOnly (comparators : List Comparator) (field : Field) :
    DecidablePred (Rule.UsesOnly comparators field)
  | .operand name comparator _ =>
    inferInstanceAs (Decidable (name = field.name → comparator ∈ comparators))
  | .operator _ left right =>
    have := decidableUsesOnly comparators field left
    have := decidableUsesOnly comparators field right
    inferInstanceAs (Decidable (left.UsesOnly comparators field ∧ right.UsesOnly comparators field))

instance (rule : Rule) (field : Field) (record changed : Record) :
    Decidable (rule.Favours field record changed) :=
  inferInstanceAs (Decidable (_ ∨ _ ∨ _))

/-- The same fault, or verdicts of which the second is true if the first is. -/
inductive VerdictImplies : Except EvaluationError Bool → Except EvaluationError Bool → Prop
  | fault (fault : EvaluationError) : VerdictImplies (.error fault) (.error fault)
  | verdict (h : holds = true → holds' = true) : VerdictImplies (.ok holds) (.ok holds')

variable {rule l r : Rule} {record changed low high : Record} {field : Field}
variable {c : Comparator} {x y literal : Binary64} {value : Literal}

theorem Magnitude.size_le_iff {m n : Magnitude} : m.size ≤ n.size ↔ m.rank ≤ n.rank := by
  rw [← not_lt, size_lt_iff, not_lt]

theorem Binary64.value?_ofInt (n : Int) :
    (ofInt n).value? = some (if n < 0 then -(Magnitude.ofNat n.natAbs).size
      else (Magnitude.ofNat n.natAbs).size) := by
  by_cases h : n < 0
  · rw [ofInt, decide_eq_true h, value?, if_pos h]
  · rw [ofInt, decide_eq_false h, value?, if_neg h]

/-- The conversion of integers to doubles keeps their order, rounded or not. -/
theorem Binary64.ofInt_le_ofInt {m n : Int} (h : m ≤ n) :
    Comparator.lessEqual.Holds (ofInt m) (ofInt n) := by
  refine ⟨_, _, value?_ofInt m, value?_ofInt n, ?_⟩
  simp only [Comparator.Relates]
  split
  · split
    · have hrank := Magnitude.rank_ofNat_mono (m := n.natAbs) (n := m.natAbs) (by omega)
      exact EReal.neg_le_neg_iff.2 (Magnitude.size_le_iff.2 hrank)
    · exact (EReal.neg_le_zero.2 (Magnitude.size_nonneg _)).trans (Magnitude.size_nonneg _)
  · rw [if_neg (by omega)]
    exact Magnitude.size_le_iff.2 (Magnitude.rank_ofNat_mono (by omega))

theorem Record.LeIn.numbers (h : low.LeIn field high) :
    ∃ x y, low.field field = .number x ∧ high.field field = .number y ∧
      Comparator.lessEqual.Holds x y := by
  cases field with
  | age => exact ⟨_, _, rfl, rfl, Binary64.ofInt_le_ofInt (Int64.le_iff_toInt_le.1 h)⟩
  | department => cases h
  | salary => exact ⟨_, _, rfl, rfl, h⟩
  | experience => exact ⟨_, _, rfl, rfl, h⟩

theorem Record.SameIn.field_eq (h : record.SameIn field changed) :
    record.field field = changed.field field := by
  cases field with
  | age => exact congrArg (fun age : Int64 => FieldValue.number (.ofInt age.toInt)) h
  | department => exact congrArg FieldValue.text h
  | salary => exact congrArg FieldValue.number h
  | experience => exact congrArg FieldValue.number h

theorem Comparator.Holds.replace (h : c.Holds x literal) (hx : x.value? = some a)
    (hy : y.value? = some b) (hr : ∀ d, c.Relates a d → c.Relates b d) : c.Holds y literal := by
  obtain ⟨a', d, hx', hl, hrel⟩ := h
  cases hx.symm.trans hx'
  exact ⟨b, d, hy, hl, hr d hrel⟩

theorem Comparator.Holds.raise (h : c.Holds x literal) (hc : c ∈ [.greater, .greaterEqual])
    (hle : Comparator.lessEqual.Holds x y) : c.Holds y literal := by
  obtain ⟨a, b, hx, hy, hab⟩ := hle
  apply h.replace hx hy
  intro d hrel
  rcases List.mem_pair.1 hc with rfl | rfl
  · exact lt_of_lt_of_le hrel hab
  · exact le_trans hrel hab

theorem Comparator.Holds.lower (h : c.Holds x literal) (hc : c ∈ [.less, .lessEqual])
    (hle : Comparator.lessEqual.Holds y x) : c.Holds y literal := by
  obtain ⟨b, a, hy, hx, hba⟩ := hle
  apply h.replace hx hy
  intro d hrel
  rcases List.mem_pair.1 hc with rfl | rfl
  · exact lt_of_le_of_lt hba hrel
  · exact le_trans hba hrel

theorem FieldValue.Meets.mono (h : (number x).Meets c value)
    (hc : ∀ literal, c.Holds x literal → c.Holds y literal) : (number y).Meets c value := by
  obtain ⟨literal, hl, hh⟩ := h
  exact ⟨literal, hl, hc literal hh⟩

/-- What an operand asks of its field is kept by a change that favours the operand. -/
theorem FieldValue.Meets.favoured (h : (record.field field).Meets c value)
    (hf : (Rule.operand field.name c value).Favours field record changed) :
    (changed.field field).Meets c value := by
  rcases hf with ⟨hc, hle⟩ | ⟨hc, hle⟩ | hsame
  · obtain ⟨x, y, hx, hy, hxy⟩ := hle.numbers
    rw [hx] at h
    rw [hy]
    exact h.mono fun literal hh => hh.raise (hc rfl) hxy
  · obtain ⟨y, x, hy, hx, hyx⟩ := hle.numbers
    rw [hx] at h
    rw [hy]
    exact h.mono fun literal hh => hh.lower (hc rfl) hyx
  · rwa [← hsame.field_eq]

theorem Rule.Holds.favoured_operand {name : String} (h : (operand name c value).Holds record)
    (hf : ∀ field, (operand name c value).Favours field record changed) :
    (operand name c value).Holds changed := by
  obtain ⟨fieldValue, hget, hm⟩ := h
  obtain ⟨field, hname, rfl⟩ := Option.map_eq_some_iff.1 hget
  obtain rfl := Field.name_of_ofName? hname
  exact ⟨changed.field field, Option.map_eq_some_iff.2 ⟨field, hname, rfl⟩,
    hm.favoured (hf field)⟩

theorem verdict_implies {p q : Prop} [Decidable p] [Decidable q] (h : p → q)
    (fault? : Option EvaluationError) : VerdictImplies (verdict fault? p) (verdict fault? q) := by
  cases fault? with
  | some fault => exact .fault fault
  | none => exact .verdict fun hp => decide_eq_true (h (of_decide_eq_true hp))

theorem joinVerdicts_implies {u u' v v' : Bool} (hu : u = true → u' = true)
    (hv : v = true → v' = true) (connective : Comparator) :
    VerdictImplies (joinVerdicts connective u v) (joinVerdicts connective u' v') := by
  cases connective with
  | and =>
    apply VerdictImplies.verdict
    intro h
    rw [Bool.and_eq_true] at h ⊢
    exact ⟨hu h.1, hv h.2⟩
  | or =>
    apply VerdictImplies.verdict
    intro h
    rw [Bool.or_eq_true] at h ⊢
    exact h.imp hu hv
  | greater | less | equal | greaterEqual | lessEqual => exact .fault _

theorem Rule.Favours.left (h : (operator c l r).Favours field record changed) :
    l.Favours field record changed :=
  h.imp (And.imp_left And.left) (Or.imp_left (And.imp_left And.left))

theorem Rule.Favours.right (h : (operator c l r).Favours field record changed) :
    r.Favours field record changed :=
  h.imp (And.imp_left And.right) (Or.imp_left (And.imp_left And.right))

theorem Rule.evaluate_implies (h : ∀ field, rule.Favours field record changed) :
    VerdictImplies (rule.evaluate record) (rule.evaluate changed) := by
  induction rule with
  | operand name c value =>
    rw [evaluate, evaluate, evaluateOperand_eq, evaluateOperand_eq]
    exact verdict_implies (fun hm => hm.favoured_operand h) _
  | operator connective l r ihl ihr =>
    have hl := ihl fun field => (h field).left
    have hr := ihr fun field => (h field).right
    rw [evaluate, evaluate]
    generalize l.evaluate record = u at hl ⊢
    generalize l.evaluate changed = u' at hl ⊢
    generalize r.evaluate record = v at hr ⊢
    generalize r.evaluate changed = v' at hr ⊢
    cases hl with
    | fault fault => exact .fault fault
    | verdict hu =>
      cases hr with
      | fault fault => exact .fault fault
      | verdict hv => exact joinVerdicts_implies hu hv connective

/-- A record that a rule accepts is still accepted when its numeric fields change only in the
directions that all comparisons of them reward, and a fault of the rule stays the same. -/
theorem Rule.evaluate_monotone (hdepartment : record.department = changed.department)
    (hnumeric : ∀ field ∈ [Field.age, .salary, .experience],
      rule.Favours field record changed) :
    (rule.evaluate record = .ok true → rule.evaluate changed = .ok true) ∧
      ∀ fault, rule.evaluate record = .error fault ↔ rule.evaluate changed = .error fault := by
  have hfavours : ∀ field, rule.Favours field record changed := by
    intro field
    cases field with
    | department => exact .inr (.inr hdepartment)
    | age | salary | experience => exact hnumeric _ (by decide)
  have himplies := evaluate_implies hfavours
  generalize rule.evaluate record = u at himplies ⊢
  generalize rule.evaluate changed = v at himplies ⊢
  cases himplies with
  | fault fault => exact ⟨nofun, fun _ => Iff.rfl⟩
  | verdict h =>
    refine ⟨?_, fun fault => iff_of_false nofun nofun⟩
    intro hu
    exact congrArg Except.ok (h (Except.ok.inj hu))

/-- A rise to infinity, a fall from one zero to the other and an age that is rounded. -/
theorem Rule.evaluate_monotone_extremes :
    let rule : Rule := .operator .and
      (.operator .or (.operand "age" .greater (.number 99))
        (.operand "department" .equal (.text "Sales")))
      (.operator .and (.operand "salary" .greaterEqual (.text " 5e4 "))
        (.operand "experience" .lessEqual (.number 0)))
    let record : Record := ⟨31, "Sales", .ofInt 50000, .zero⟩
    let changed : Record := ⟨9007199254740993, "Sales", .signed false .infinity, .signed true .zero⟩
    record.department = changed.department ∧
      (∀ field ∈ [Field.age, .salary, .experience], rule.Favours field record changed) ∧
      rule.evaluate record = .ok true ∧ rule.evaluate changed = .ok true := by
  intro rule record changed
  have hdepartment : record.department = changed.department := rfl
  have hfavours : ∀ field ∈ [Field.age, .salary, .experience],
      rule.Favours field record changed := by
    decide +kernel
  have hrecord : rule.evaluate record = .ok true := by decide +kernel
  exact ⟨hdepartment, hfavours, hrecord, (evaluate_monotone hdepartment hfavours).1 hrecord⟩

end Eligibility
