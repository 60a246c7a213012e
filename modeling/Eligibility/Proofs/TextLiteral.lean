import Eligibility.Proofs.DecimalRounding
import Eligibility.Proofs.DecimalText
import Eligibility.Proofs.Semantics

namespace Eligibility
set_option autoImplicit true

/-- The text is the body between blanks, and the body neither starts nor ends with a blank. -/
structure IsTrimmed (text body : List Char) : Prop where
  padded : ∃ before after, IsBlanks before ∧ IsBlanks after ∧ text = before ++ (body ++ after)
  first : Stops isBlank body
  last : Stops isBlank body.reverse

variable {text body blanks blanks' : List Char} {record : Record} {field : Field}
variable {own literal : Binary64} {value : Literal}

theorem IsBlanks.reverse (hb : IsBlanks blanks) : IsBlanks blanks.reverse := by
  intro c hc
  exact hb c (List.mem_reverse.1 hc)

theorem trimBlanks_isTrimmed (text : List Char) : IsTrimmed text (trimBlanks text) := by
  obtain ⟨before, hb, htext⟩ := exists_skipBlanks text
  obtain ⟨after, ha, hinner⟩ := exists_skipBlanks (skipBlanks text).reverse
  have hbody : skipBlanks text = trimBlanks text ++ after.reverse := by
    rw [trimBlanks, ← List.reverse_append, ← hinner, List.reverse_reverse]
  refine ⟨⟨before, after.reverse, hb, ha.reverse, ?_⟩, ?_, ?_⟩
  · rw [← hbody]
    exact htext
  · have hfirst : Stops isBlank (skipBlanks text) := stops_dropWhile _ _
    rw [hbody] at hfirst
    exact hfirst.of_append
  · rw [trimBlanks, List.reverse_reverse]
    exact stops_dropWhile _ _

/-- A text has one body only. -/
theorem IsTrimmed.trimBlanks_eq (h : IsTrimmed text body) : trimBlanks text = body := by
  obtain ⟨⟨before, after, hb, ha, rfl⟩, hfirst, hlast⟩ := h
  rw [trimBlanks, hb.skip]
  by_cases hne : body = []
  · rw [hne, List.nil_append, skipBlanks_blanks ha]
    rfl
  · have hbody : skipBlanks (body ++ after) = body ++ after := (hfirst.prolong hne).dropWhile
    rw [hbody, List.reverse_append, ha.reverse.skip]
    have hskip : skipBlanks body.reverse = body.reverse := hlast.dropWhile
    rw [hskip, List.reverse_reverse]

theorem IsTrimmed.pad (h : IsTrimmed text body) (hb : IsBlanks blanks) (ha : IsBlanks blanks') :
    IsTrimmed (blanks ++ (text ++ blanks')) body := by
  obtain ⟨⟨before, after, hbefore, hafter, rfl⟩, hfirst, hlast⟩ := h
  refine ⟨⟨blanks ++ before, after ++ blanks', hb.append hbefore, hafter.append ha, ?_⟩,
    hfirst, hlast⟩
  simp only [List.append_assoc]

theorem Binary64.isFinite_signed {negative : Bool} {size : Magnitude} :
    (signed negative size).isFinite = true ↔ size ≠ .infinity := by
  rw [isFinite, decide_eq_true_iff]
  constructor
  · rintro hlt rfl
    exact absurd hlt (Nat.lt_irrefl _)
  · intro hne
    refine Nat.lt_of_le_of_ne size.rank_le fun he => hne ?_
    cases size
    cases he
    rfl

/-- The texts that are not read at all and those that are read as infinity or NaN denote no finite
double. -/
theorem Literal.double?_text {text : String} (ht : IsTrimmed text.toList body) :
    (Literal.text text).double? = some literal ↔ ∃ negative d size, IsDecimal body negative d ∧
      d.RoundsTo size ∧ size ≠ .infinity ∧ literal = .signed negative size := by
  rw [double?, ht.trimBlanks_eq, Option.filter_eq_some_iff]
  constructor
  · rintro ⟨hread, hfinite⟩
    obtain ⟨negative, d, hd, rfl⟩ := Binary64.isDecimal_of_read hread hfinite
    exact ⟨negative, d, _, hd, Decimal.roundsTo_iff.2 rfl, Binary64.isFinite_signed.1 hfinite, rfl⟩
  · rintro ⟨negative, d, size, hd, hsize, hfinite, rfl⟩
    obtain rfl := Decimal.roundsTo_iff.1 hsize
    exact ⟨hd.read, Binary64.isFinite_signed.2 hfinite⟩

theorem IsDecimal.rounding_eq (h : IsDecimal body negative d) (h' : IsDecimal body negative' d') :
    negative = negative' ∧ Magnitude.ofDecimal d = .ofDecimal d' := by
  exact Binary64.signed.inj (Option.some.inj (h.read.symm.trans h'.read))

theorem Literal.double?_text_eq_none {text : String} (ht : IsTrimmed text.toList body) :
    (Literal.text text).double? = none ↔ (∀ negative d, ¬ IsDecimal body negative d) ∨
      ∃ negative d, IsDecimal body negative d ∧ d.RoundsTo .infinity := by
  rw [Option.eq_none_iff_forall_ne_some]
  constructor
  · intro hnone
    by_cases h : ∃ negative d, IsDecimal body negative d
    · obtain ⟨negative, d, hd⟩ := h
      refine .inr ⟨negative, d, hd, Decimal.roundsTo_iff.2 ?_⟩
      by_contra hfinite
      exact hnone _ ((double?_text ht).2
        ⟨negative, d, _, hd, Decimal.roundsTo_iff.2 rfl, Ne.symm hfinite, rfl⟩)
    · exact .inl fun negative d hd => h ⟨negative, d, hd⟩
  · intro h literal hsome
    obtain ⟨negative, d, size, hd, hsize, hfinite, -⟩ := (double?_text ht).1 hsome
    rcases h with h | ⟨negative', d', hd', hinfinity⟩
    · exact h negative d hd
    · rw [Decimal.roundsTo_iff] at hsize hinfinity
      exact hfinite (hsize.trans ((hd.rounding_eq hd').2.trans hinfinity.symm))

theorem Rule.evaluate_operand_number (h : record.field field = .number own) (c : Comparator)
    (value : Literal) : (operand field.name c value).evaluate record =
      verdict (value.numericFault?.or (c.fault? (!c.isConnective) .operandNode))
        ((FieldValue.number own).Meets c value) := by
  have hget : record.get? field.name = some (.number own) := by
    rw [Record.get?, field.ofName?_name, Option.map_some, h]
  rw [evaluate, evaluateOperand, hget]
  exact evaluateNumber_eq c value own

theorem Rule.evaluate_of_double (h : record.field field = .number own) (c : Comparator)
    (hd : value.double? = some literal) : (operand field.name c value).evaluate record =
      verdict (c.fault? (!c.isConnective) .operandNode) (c.Holds own literal) := by
  have hmeets : (FieldValue.number own).Meets c value ↔ c.Holds own literal := by
    simp only [FieldValue.Meets, hd, Option.mem_def, Option.some.injEq, exists_eq_left']
  rw [evaluate_operand_number h, Literal.numericFault?, hd]
  exact verdict_congr hmeets _

/-- A number next to a numeric field is missed before the comparator is looked at. -/
theorem Rule.evaluate_of_no_double (h : record.field field = .number own) (c : Comparator)
    (hd : value.double? = none) : (operand field.name c value).evaluate record =
      .error (.nonNumericLiteral value.spelling) := by
  rw [evaluate_operand_number h, Literal.numericFault?, hd]
  rfl

theorem verdict_ne_nonNumericLiteral {p : Prop} [Decidable p] (c : Comparator) (supported : Bool)
    (context : ComparatorContext) (text : String) :
    verdict (c.fault? supported context) p ≠ .error (.nonNumericLiteral text) := by
  cases supported with
  | true => nofun
  | false => nofun

theorem Literal.double?_pad (text : String) (hb : IsBlanks blanks) (ha : IsBlanks blanks') :
    (Literal.text (.ofList (blanks ++ (text.toList ++ blanks')))).double? =
      (Literal.text text).double? := by
  have hpad := ((trimBlanks_isTrimmed text.toList).pad hb ha).trimBlanks_eq
  rw [double?, double?, String.toList_ofList, hpad]

theorem Rule.evaluate_pad (h : record.field field = .number own) (c : Comparator) (text : String)
    (hb : IsBlanks blanks) (ha : IsBlanks blanks') (v : Bool) :
    (operand field.name c (.text (.ofList (blanks ++ (text.toList ++ blanks'))))).evaluate record =
        .ok v ↔
      (operand field.name c (.text text)).evaluate record = .ok v := by
  have hpad := Literal.double?_pad text hb ha
  cases hd : (Literal.text text).double? with
  | none =>
    rw [evaluate_of_no_double h c hd, evaluate_of_no_double h c (hpad.trans hd)]
    exact iff_of_false nofun nofun
  | some literal => rw [evaluate_of_double h c hd, evaluate_of_double h c (hpad.trans hd)]

theorem Rule.evaluate_text_rejected_iff (h : record.field field = .number own) (c : Comparator)
    (text : String) : (operand field.name c (.text text)).evaluate record =
      .error (.nonNumericLiteral text) ↔ (Literal.text text).double? = none := by
  cases hd : (Literal.text text).double? with
  | none => exact iff_of_true (evaluate_of_no_double h c hd) rfl
  | some literal =>
    rw [evaluate_of_double h c hd]
    exact iff_of_false (verdict_ne_nonNumericLiteral c _ _ text) nofun

/-- Next to a numeric field a text is refused as it stands unless it is, between blanks, a decimal
number that rounds to a finite double, and then it is compared as that double. So words, other
notations and the empty text are refused, and blanks at the ends never change a verdict. -/
theorem Rule.evaluate_text_literal (h : record.field field = .number own) (c : Comparator)
    (text : String) :
    let answer (text : String) := (operand field.name c (.text text)).evaluate record
    ∃ body, IsTrimmed text.toList body ∧
      (answer text = .error (.nonNumericLiteral text) ↔
        (∀ negative d, ¬ IsDecimal body negative d) ∨
          ∃ negative d, IsDecimal body negative d ∧ d.RoundsTo .infinity) ∧
      (∀ negative d, IsDecimal body negative d →
        ∃ size, (∀ other, d.RoundsTo other ↔ other = size) ∧ (size ≠ .infinity →
          answer text = verdict (c.fault? (!c.isConnective) .operandNode)
            (c.Holds own (.signed negative size)))) ∧
      (body = [] ∨ (∃ char ∈ body, isDecimalChar char = false) →
        answer text = .error (.nonNumericLiteral text)) ∧
      ∀ before after v, IsBlanks before → IsBlanks after →
        (answer (.ofList (before ++ (text.toList ++ after))) = .ok v ↔ answer text = .ok v) := by
  intro answer
  have ht := trimBlanks_isTrimmed text.toList
  refine ⟨_, ht, ?_, ?_, ?_, fun before after v hb ha => evaluate_pad h c text hb ha v⟩
  · exact (evaluate_text_rejected_iff h c text).trans (Literal.double?_text_eq_none ht)
  · intro negative d hd
    refine ⟨.ofDecimal d, fun other => Decimal.roundsTo_iff, fun hfinite => ?_⟩
    have hdouble := (Literal.double?_text ht).2
      ⟨negative, d, _, hd, Decimal.roundsTo_iff.2 rfl, hfinite, rfl⟩
    exact evaluate_of_double h c hdouble
  · intro hbody
    have hnone : ∀ negative d, ¬ IsDecimal (trimBlanks text.toList) negative d := by
      intro negative d hd
      rcases hbody with hnil | ⟨char, hmem, hchar⟩
      · exact hd.ne_nil hnil
      · exact Bool.eq_false_iff.1 hchar (hd.chars char hmem)
    exact (evaluate_text_rejected_iff h c text).2
      ((Literal.double?_text_eq_none ht).2 (.inl hnone))

/-- A fraction alone with a sign and a power is a half; `1e400` is a decimal number but too large,
and a word is refused before the connective is. -/
theorem Rule.evaluate_text_literal_half :
    let half : Binary64 := .signed false (.ofDecimal ⟨5, -1⟩)
    let record : Record := ⟨0, "Sales", .nan, half⟩
    let answer (c : Comparator) (text : String) :=
      (operand "experience" c (.text text)).evaluate record
    record.field .experience = .number half ∧
      answer .greaterEqual "\t+.5e0\u00a0" = .ok true ∧
      answer .and "5E-1" = .error (.unsupportedComparator .and .operandNode) ∧
      answer .less "1e400" = .error (.nonNumericLiteral "1e400") ∧
      answer .or " inf" = .error (.nonNumericLiteral " inf") := by
  intro half record answer
  have hfield : record.field .experience = .number half := rfl
  have hfive : IsDigits ['5'] := by decide
  have hpoint : IsDecimal ['+', '.', '5', 'e', '0'] false ⟨5, -1⟩ :=
    .intro .plus (.fraction hfive) (.power (.inl rfl) .none (by decide : IsDigits ['0']))
  have hpower : IsDecimal ['5', 'E', '-', '1'] false ⟨5, -1⟩ :=
    .intro .none (.whole hfive) (.power (.inr rfl) .minus (by decide : IsDigits ['1']))
  have hlarge : IsDecimal ['1', 'e', '4', '0', '0'] false ⟨1, 400⟩ :=
    .intro .none (.whole (by decide : IsDigits ['1']))
      (.power (.inl rfl) .none (by decide : IsDigits ['4', '0', '0']))
  have hhalf : Decimal.RoundsTo ⟨5, -1⟩ (.ofDecimal ⟨5, -1⟩) := Decimal.roundsTo_iff.2 rfl
  have hfinite : Magnitude.ofDecimal ⟨5, -1⟩ ≠ .infinity := by decide +kernel
  have hinfinity : Decimal.RoundsTo ⟨1, 400⟩ .infinity :=
    Decimal.roundsTo_iff.2 (by decide +kernel)
  refine ⟨hfield, ?_, ?_, ?_, ?_⟩
  · obtain ⟨body, ht, -, hcompare, -⟩ :=
      evaluate_text_literal hfield .greaterEqual "\t+.5e0\u00a0"
    obtain rfl : ['+', '.', '5', 'e', '0'] = body := by
      rw [← ht.trimBlanks_eq]
      decide
    obtain ⟨size, hsize, hverdict⟩ := hcompare _ _ hpoint
    obtain rfl := (hsize _).1 hhalf
    refine (hverdict hfinite).trans ?_
    decide +kernel
  · obtain ⟨body, ht, -, hcompare, -⟩ := evaluate_text_literal hfield .and "5E-1"
    obtain rfl : ['5', 'E', '-', '1'] = body := by
      rw [← ht.trimBlanks_eq]
      decide
    obtain ⟨size, hsize, hverdict⟩ := hcompare _ _ hpower
    obtain rfl := (hsize _).1 hhalf
    exact hverdict hfinite
  · obtain ⟨body, ht, hrefused, -⟩ := evaluate_text_literal hfield .less "1e400"
    obtain rfl : ['1', 'e', '4', '0', '0'] = body := by
      rw [← ht.trimBlanks_eq]
      decide
    exact hrefused.2 (.inr ⟨_, _, hlarge, hinfinity⟩)
  · obtain ⟨body, ht, -, -, hchars, -⟩ := evaluate_text_literal hfield .or " inf"
    obtain rfl : ['i', 'n', 'f'] = body := by
      rw [← ht.trimBlanks_eq]
      decide
    exact hchars (.inr ⟨'i', List.mem_cons_self, rfl⟩)

end Eligibility
