import Eligibility.Proofs.Recognition
import Eligibility.Rule.Render

namespace Eligibility
set_option autoImplicit true

variable {text : List Char} {rule : Rule}

/-- A text literal can be quoted if it holds no quote itself. -/
def Literal.IsQuotable : Literal → Prop
  | .number _ => True
  | .text value => '\'' ∉ value.toList

/-- All fields of the rule are names and all its text literals can be quoted. -/
def Rule.IsLexical : Rule → Prop
  | .operand field _ value => IsName field.toList ∧ value.IsQuotable
  | .operator _ left right => left.IsLexical ∧ right.IsLexical

instance : DecidablePred Literal.IsQuotable
  | .number _ => .isTrue trivial
  | .text value => inferInstanceAs (Decidable ('\'' ∉ value.toList))

instance Rule.decidableIsLexical : DecidablePred Rule.IsLexical
  | .operand field _ value =>
    inferInstanceAs (Decidable (IsName field.toList ∧ value.IsQuotable))
  | .operator _ left right =>
    have := decidableIsLexical left
    have := decidableIsLexical right
    inferInstanceAs (Decidable (left.IsLexical ∧ right.IsLexical))

theorem IsLiteral.isQuotable (h : IsLiteral text value) : value.IsQuotable := by
  cases h with
  | text hq =>
    rw [Literal.IsQuotable, String.toList_ofList]
    exact hq
  | number => trivial

theorem IsComparison.isLexical (h : IsComparison text rule) : rule.IsLexical := by
  cases h with
  | intro c hb hn hb' hs hb'' hl =>
    refine ⟨?_, hl.isQuotable⟩
    rw [String.toList_ofList]
    exact hn

mutual

theorem IsExpression.isLexical {text : List Char} {rule : Rule} :
    IsExpression text rule nesting → rule.IsLexical
  | .term h => h.isLexical
  | .chain _ hl _ hr => ⟨hl.isLexical, hr.isLexical⟩

theorem IsTerm.isLexical {text : List Char} {rule : Rule} :
    IsTerm text rule nesting → rule.IsLexical
  | .comparison h => h.isLexical
  | .enclosed _ h _ => h.isLexical

end

theorem Derives.isLexical (h : Derives text rule) : rule.IsLexical := by
  obtain ⟨_, _, _, _, _, _, he, _⟩ := h
  exact he.isLexical

theorem decimalDigits_ne_nil (n : Nat) : decimalDigits n ≠ [] :=
  Nat.toDigits_ne_nil

theorem Literal.IsQuotable.isLiteral (h : value.IsQuotable) : IsLiteral value.render value := by
  cases value with
  | number n =>
    have hd : ∀ c ∈ decimalDigits n.toNat, c.isDigit = true := fun _ => isDigit_of_mem_decimalDigits
    have hv : digitsValue (decimalDigits n.toNat) < UInt64.size := by
      rw [digitsValue_decimalDigits]
      exact n.toNat_lt_size
    have hl := IsLiteral.number (decimalDigits_ne_nil n.toNat) hd hv
    rwa [digitsValue_decimalDigits, UInt64.ofNat_toNat] at hl
  | text value =>
    have hl := IsLiteral.text h
    rwa [String.ofList_toList] at hl

theorem stops_space : Stops isNameChar (' ' :: rest) :=
  not_isNameChar_of_isBlank (by decide)

theorem isComparison_render {comparator : Comparator}
    (h : (Rule.operand field comparator value).IsLexical) :
    IsComparison (Rule.operand field comparator value).render
      (.operand field comparator value) := by
  have hc := IsComparison.intro comparator .nil h.1 .space stops_space .space h.2.isLiteral
  rwa [String.ofList_toList] at hc

theorem IsTerm.after_blanks (hb : IsBlanks blanks) (h : IsTerm text rule nesting) :
    IsTerm (blanks ++ text) rule nesting := by
  cases h with
  | comparison h =>
    cases h with
    | intro c hb' hn hb'' hs hb''' hl =>
      rw [← List.append_assoc]
      exact .comparison (.intro c (hb.append hb') hn hb'' hs hb''' hl)
  | enclosed hb' h hb'' =>
    rw [← List.append_assoc]
    exact .enclosed (hb.append hb') h hb''

/-- A rendered child stands in at most as many parentheses as it has levels. -/
theorem isTerm_enclose (h : ∃ nesting, nesting < rule.depth ∧ IsExpression rule.render rule nesting)
    (hl : rule.IsLexical) :
    ∃ nesting, nesting ≤ rule.depth ∧ IsTerm (rule.enclose rule.render) rule nesting := by
  cases rule with
  | operand field comparator value =>
    exact ⟨0, Nat.zero_le _, .comparison (isComparison_render hl)⟩
  | operator connective left right =>
    obtain ⟨nesting, hn, he⟩ := h
    exact ⟨nesting + 1, hn, .enclosed .nil he .nil⟩

/-- The canonical text opens fewer parentheses inside one another than the rule has levels, so that
it passes the limit on parentheses only where the rule passes the one on levels. -/
theorem Rule.IsLexical.isExpression (h : rule.IsLexical) :
    ∃ nesting, nesting < rule.depth ∧ IsExpression rule.render rule nesting := by
  induction rule with
  | operand field comparator value =>
    exact ⟨0, Nat.zero_lt_one, .term (.comparison (isComparison_render h))⟩
  | operator connective left right ihl ihr =>
    obtain ⟨m, hm, hl⟩ := isTerm_enclose (ihl h.1) h.1
    obtain ⟨n, hn, hr⟩ := isTerm_enclose (ihr h.2) h.2
    refine ⟨max m n, ?_, .chain connective (.term hl) .space (hr.after_blanks .space)⟩
    rw [Rule.depth]
    omega

theorem Rule.IsLexical.isRuleText (h : rule.IsLexical) :
    ∃ nesting, nesting < rule.depth ∧ IsRuleText rule.text.toList rule nesting := by
  obtain ⟨nesting, hn, he⟩ := h.isExpression
  refine ⟨nesting, hn, rule.render, [], ?_, he, .nil⟩
  rw [Rule.text, String.toList_ofList, List.append_nil]

theorem Rule.IsLexical.parse_text (h : rule.IsLexical) (hd : rule.depth ≤ maxDepth) :
    parse rule.text = .ok rule := by
  obtain ⟨nesting, hn, ht⟩ := h.isRuleText
  exact ht.parse.1 ⟨hd, Nat.le_of_lt (Nat.lt_of_lt_of_le hn hd)⟩

theorem Rule.IsLexical.parse_text_deep (h : rule.IsLexical) (hd : maxDepth < rule.depth) :
    ∃ position, parse rule.text = .error ⟨position, .nestedTooDeeply⟩ := by
  obtain ⟨nesting, hn, ht⟩ := h.isRuleText
  exact ht.parse.2 fun hf => Nat.not_le_of_lt hd hf.1

/-- Parsing undoes rendering on the lexical rules within the depth limit and on no other rule, and
it returns no other rule for any text. Beyond the limit the text of a lexical rule is rejected for
its depth. -/
theorem Rule.parse_text_eq_ok_iff :
    (∀ text rule, parse text = .ok rule → rule.IsLexical ∧ rule.depth ≤ maxDepth) ∧
      (∀ rule : Rule, parse rule.text = .ok rule ↔ rule.IsLexical ∧ rule.depth ≤ maxDepth) ∧
      ∀ rule : Rule, rule.IsLexical → maxDepth < rule.depth →
        ∃ error, parse rule.text = .error error ∧ error.reason = .nestedTooDeeply ∧
          error.reason.message = "rule nested too deeply" := by
  have hparsed : ∀ text rule, parse text = .ok rule → rule.IsLexical ∧ rule.depth ≤ maxDepth := by
    intro text rule h
    have hd := derives_of_parse h
    exact ⟨hd.isLexical, hd.1⟩
  refine ⟨hparsed, fun rule => ⟨hparsed rule.text rule, fun h => h.1.parse_text h.2⟩, ?_⟩
  intro rule hl hd
  obtain ⟨position, he⟩ := hl.parse_text_deep hd
  exact ⟨_, he, rfl, rfl⟩

/-- A field may be called like a connective and a text literal may hold a parenthesis. One level
above the limit and a quote in a text literal are rejected. -/
theorem Rule.parse_text_chain :
    let leaf : Rule := .operand "AND" .or (.text "a(")
    let chain (levels : Nat) : Rule :=
      (List.range levels).foldl (fun rule _ => .operator .and rule leaf) leaf
    let quote : Rule := .operand "a" .equal (.text "'")
    parse (chain 99).text = .ok (chain 99) ∧
      (∃ error, parse (chain 100).text = .error error ∧ error.reason = .nestedTooDeeply ∧
        error.reason.message = "rule nested too deeply") ∧
      parse quote.text ≠ .ok quote := by
  intro leaf chain quote
  have hstep : ∀ levels, chain (levels + 1) = .operator .and (chain levels) leaf := by
    intro levels
    simp only [chain, List.range_succ, List.foldl_append, List.foldl_cons, List.foldl_nil]
  have hleaf : leaf.IsLexical := by decide
  have hlexical : ∀ levels, (chain levels).IsLexical := by
    intro levels
    induction levels with
    | zero => exact hleaf
    | succ levels ih =>
      rw [hstep]
      exact ⟨ih, hleaf⟩
  have hdepth : ∀ levels, (chain levels).depth = levels + 1 := by
    intro levels
    induction levels with
    | zero => rfl
    | succ levels ih =>
      rw [hstep, Rule.depth, ih]
      exact congrArg Nat.succ (Nat.max_eq_left (Nat.succ_le_succ (Nat.zero_le levels)))
  refine ⟨?_, ?_, ?_⟩
  · exact (parse_text_eq_ok_iff.2.1 (chain 99)).2 ⟨hlexical 99, Nat.le_of_eq (hdepth 99)⟩
  · exact parse_text_eq_ok_iff.2.2 (chain 100) (hlexical 100) (Nat.le_of_eq (hdepth 100).symm)
  · intro h
    have hl := ((parse_text_eq_ok_iff.2.1 quote).1 h).1
    revert hl
    decide

end Eligibility
