import Eligibility.Proofs.Tokens

namespace Eligibility
set_option autoImplicit true

/-- The texts of a comparison. Its name ends only where the run of name characters ends. -/
inductive IsComparison : List Char → Rule → Prop
  | intro (c : Comparator) (hb : IsBlanks blanks) (hn : IsName name) (hb' : IsBlanks blanks')
    (hs : Stops isNameChar (blanks' ++ c.chars)) (hb'' : IsBlanks blanks'')
    (hl : IsLiteral literal value) :
    IsComparison (blanks ++ (name ++ (blanks' ++ (c.chars ++ (blanks'' ++ literal)))))
      (.operand (String.ofList name) c value)

mutual

/-- The texts of an expression, with its rule and the number of parentheses around its innermost
place. A comparator joins all that precedes it with the one term that follows. -/
inductive IsExpression : List Char → Rule → Nat → Prop
  | term (h : IsTerm text rule nesting) : IsExpression text rule nesting
  | chain (c : Comparator) (hl : IsExpression left l m) (hb : IsBlanks blanks)
    (hr : IsTerm right r n) :
    IsExpression (left ++ (blanks ++ (c.chars ++ right))) (.operator c l r) (max m n)

/-- The texts of a term: a comparison, or an expression between parentheses. -/
inductive IsTerm : List Char → Rule → Nat → Prop
  | comparison (h : IsComparison text rule) : IsTerm text rule 0
  | enclosed (hb : IsBlanks blanks) (h : IsExpression text rule nesting)
    (hb' : IsBlanks blanks') :
    IsTerm (blanks ++ '(' :: (text ++ (blanks' ++ [')']))) rule (nesting + 1)

end

/-- The texts of a rule: an expression and blanks that follow it. -/
def IsRuleText (text : List Char) (rule : Rule) (nesting : Nat) : Prop :=
  ∃ expression blanks, text = expression ++ blanks ∧ IsExpression expression rule nesting ∧
    IsBlanks blanks

/-- A text of the rule that keeps the two limits. -/
def Derives (text : List Char) (rule : Rule) : Prop :=
  rule.depth ≤ maxDepth ∧ ∃ nesting, nesting ≤ maxDepth ∧ IsRuleText text rule nesting

/-- The texts of the expressions that begin with this one and go on with further terms. -/
inductive Continues (start : List Char) (l : Rule) (m : Nat) : List Char → Rule → Nat → Prop
  | refl : Continues start l m start l m
  | chain (c : Comparator) (h : Continues start l m text rule n) (hb : IsBlanks blanks)
    (hr : IsTerm right r k) :
    Continues start l m (text ++ (blanks ++ (c.chars ++ right))) (.operator c rule r) (max n k)

variable {text rest : List Char} {rule : Rule}

theorem IsComparison.depth (h : IsComparison text rule) : rule.depth = 1 := by
  cases h
  rfl

/-- What stands at the front of a term is a blank, a parenthesis or a name. -/
theorem IsComparison.head (h : IsComparison text rule) :
    ∃ blanks c tail, IsBlanks blanks ∧ text = blanks ++ c :: tail ∧ isNameChar c = true := by
  obtain ⟨c, hb, ⟨hne, hn⟩, hb', hs, hb'', hl⟩ := h
  rename_i name _ _ _ _
  cases name with
  | nil => exact absurd rfl hne
  | cons d name => exact ⟨_, d, _, hb, rfl, hn d List.mem_cons_self⟩

theorem IsTerm.head (h : IsTerm text rule nesting) :
    ∃ blanks c tail, IsBlanks blanks ∧ text = blanks ++ c :: tail ∧
      (isNameChar c = true ∨ c = '(') := by
  cases h with
  | comparison h =>
    obtain ⟨blanks, c, tail, hb, ht, hc⟩ := h.head
    exact ⟨blanks, c, tail, hb, ht, .inl hc⟩
  | enclosed hb h hb' => exact ⟨_, _, _, hb, rfl, .inr rfl⟩

theorem isNameChar_ne (hd : isNameChar d = false) (h : isNameChar c = true) : (c == d) = false := by
  rw [beq_eq_false_iff_ne]
  rintro rfl
  exact absurd h (Bool.eq_false_iff.1 hd)

theorem IsTerm.stops_equals (h : IsTerm text rule nesting) : Stops (· == '=') (text ++ rest) := by
  obtain ⟨blanks, c, tail, hb, ht, hc⟩ := h.head
  rw [ht, List.append_assoc]
  apply hb.stops fun _ => not_equals_of_isBlank
  rcases hc with hc | hc
  · exact isNameChar_ne (by decide) hc
  · rw [hc]
    rfl

theorem Continues.head (h : Continues start l m text rule n) :
    (start = text ∧ l = rule ∧ m = n) ∨ ∃ blanks c right r k, IsBlanks blanks ∧ IsTerm right r k ∧
      Continues (start ++ (blanks ++ (c.chars ++ right))) (.operator c l r) (max m k)
        text rule n := by
  induction h with
  | refl => exact .inl ⟨rfl, rfl, rfl⟩
  | chain c h hb hr ih =>
    obtain ⟨rfl, rfl, rfl⟩ | ⟨blanks, d, right, r, k, hb', hr', hc⟩ := ih
    · exact .inr ⟨_, c, _, _, _, hb, hr, .refl⟩
    · exact .inr ⟨blanks, d, right, r, k, hb', hr', .chain c hc hb hr⟩

theorem IsExpression.first {text : List Char} {rule : Rule} :
    IsExpression text rule n → ∃ start l m, IsTerm start l m ∧ Continues start l m text rule n
  | .term h => ⟨_, _, _, h, .refl⟩
  | .chain c hl hb hr => by
    obtain ⟨start, l, m, ht, hc⟩ := hl.first
    exact ⟨start, l, m, ht, .chain c hc hb hr⟩

end Eligibility
