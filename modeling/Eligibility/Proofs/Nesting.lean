import Eligibility.Proofs.Grammar

namespace Eligibility
set_option autoImplicit true

/-- The most parentheses that stand open at once, with so many open already. A parenthesis between
quotes opens and closes nothing. -/
def nestingFrom (quoted : Bool) (opened : Nat) : List Char → Nat
  | [] => opened
  | c :: rest =>
    if c = '\'' then nestingFrom (!quoted) opened rest
    else if quoted then nestingFrom true opened rest
    else if c = '(' then nestingFrom false (opened + 1) rest
    else if c = ')' then max opened (nestingFrom false (opened - 1) rest)
    else nestingFrom false opened rest

/-- How deep the parentheses of a rule text nest. -/
def parenthesisDepth (text : String) : Nat :=
  nestingFrom false 0 text.toList

/-- The characters that count for the nesting of a text. -/
def isMark (c : Char) : Bool :=
  c == '\'' || c == '(' || c == ')'

variable {text rest run : List Char} {rule : Rule}

theorem isMark_cases (h : isMark c = true) : c = '\'' ∨ c = '(' ∨ c = ')' := by
  simpa only [isMark, Bool.or_eq_true, beq_iff_eq, or_assoc] using h

/-- A class of characters has no marks if it has none of the three. -/
theorem not_isMark {p : Char → Bool} (hp : p '\'' = false ∧ p '(' = false ∧ p ')' = false)
    (h : p c = true) : isMark c = false := by
  cases hm : isMark c with
  | false => rfl
  | true =>
    rcases isMark_cases hm with rfl | rfl | rfl
    · exact absurd h (Bool.eq_false_iff.1 hp.1)
    · exact absurd h (Bool.eq_false_iff.1 hp.2.1)
    · exact absurd h (Bool.eq_false_iff.1 hp.2.2)

theorem le_nestingFrom (quoted : Bool) (opened : Nat) (text : List Char) :
    opened ≤ nestingFrom quoted opened text := by
  induction text generalizing quoted opened with
  | nil => exact Nat.le_refl _
  | cons c rest ih =>
    rw [nestingFrom]
    split
    · exact ih _ _
    · split
      · exact ih _ _
      · split
        · exact Nat.le_of_succ_le (ih _ _)
        · split
          · exact Nat.le_max_left _ _
          · exact ih _ _

theorem nestingFrom_run (h : ∀ c ∈ run, isMark c = false) (opened : Nat) :
    nestingFrom false opened (run ++ rest) = nestingFrom false opened rest := by
  induction run with
  | nil => rfl
  | cons c run ih =>
    have hc := h c List.mem_cons_self
    have hrun := ih fun d hd => h d (List.mem_cons_of_mem _ hd)
    simp only [isMark, Bool.or_eq_false_iff, beq_eq_false_iff_ne] at hc
    rw [List.cons_append, nestingFrom, if_neg hc.1.1, if_neg Bool.false_ne_true, if_neg hc.1.2,
      if_neg hc.2, hrun]

theorem nestingFrom_blanks (hb : IsBlanks blanks) (opened : Nat) :
    nestingFrom false opened (blanks ++ rest) = nestingFrom false opened rest :=
  nestingFrom_run (fun c hc => not_isMark (by decide) (hb c hc)) opened

theorem Comparator.not_isMark (c : Comparator) : ∀ d ∈ c.chars, isMark d = false := by
  cases c <;> simp [chars, isMark]

theorem nestingFrom_inside (h : '\'' ∉ quoted) (opened : Nat) :
    nestingFrom true opened (quoted ++ '\'' :: rest) = nestingFrom false opened rest := by
  induction quoted with
  | nil => rfl
  | cons c quoted ih =>
    have hc : c ≠ '\'' := fun he => h (he ▸ List.mem_cons_self)
    rw [List.cons_append, nestingFrom, if_neg hc, if_pos rfl]
    exact ih fun hm => h (List.mem_cons_of_mem _ hm)

theorem IsLiteral.nestingFrom (h : IsLiteral text value) (opened : Nat) :
    nestingFrom false opened (text ++ rest) = nestingFrom false opened rest := by
  cases h with
  | @text quoted hq =>
    have htext : '\'' :: (quoted ++ ['\'']) ++ rest = '\'' :: (quoted ++ '\'' :: rest) := by
      rw [List.cons_append, List.append_assoc, List.singleton_append]
    rw [htext, Eligibility.nestingFrom, if_pos rfl]
    exact nestingFrom_inside hq opened
  | number hne hd hv =>
    exact nestingFrom_run (fun c hc => not_isMark (p := Char.isDigit) (by decide) (hd c hc)) opened

theorem IsComparison.nestingFrom (h : IsComparison text rule) (opened : Nat) :
    nestingFrom false opened (text ++ rest) = nestingFrom false opened rest := by
  obtain ⟨c, hb, hn, hb', hs, hb'', hl⟩ := h
  have hname := fun c hc => not_isMark (p := isNameChar) (by decide) (hn.2 c hc)
  simp only [List.append_assoc]
  rw [nestingFrom_blanks hb, nestingFrom_run hname, nestingFrom_blanks hb',
    nestingFrom_run c.not_isMark, nestingFrom_blanks hb'', hl.nestingFrom]

/-- A text with that many parentheses inside one another keeps the count of those around it. -/
def Nests (text : List Char) (n : Nat) : Prop :=
  ∀ opened rest,
    nestingFrom false opened (text ++ rest) = max (opened + n) (nestingFrom false opened rest)

theorem IsComparison.nests (h : IsComparison text rule) : Nests text 0 := by
  intro opened rest
  rw [h.nestingFrom, Nat.add_zero, Nat.max_eq_right (le_nestingFrom _ _ _)]

theorem Nests.chain (hl : Nests left m) (hb : IsBlanks blanks) (c : Comparator)
    (hr : Nests right n) : Nests (left ++ (blanks ++ (c.chars ++ right))) (max m n) := by
  intro opened rest
  simp only [List.append_assoc]
  rw [hl, nestingFrom_blanks hb, nestingFrom_run c.not_isMark, hr, ← Nat.max_assoc,
    Nat.add_max_add_left]

theorem Nests.enclosed (h : Nests text n) (hb : IsBlanks blanks) (hb' : IsBlanks blanks') :
    Nests (blanks ++ '(' :: (text ++ (blanks' ++ [')']))) (n + 1) := by
  intro opened rest
  have hopen (rest : List Char) :
      nestingFrom false opened ('(' :: rest) = nestingFrom false (opened + 1) rest := rfl
  have hclose : nestingFrom false (opened + 1) (')' :: rest) =
      max (opened + 1) (nestingFrom false opened rest) := rfl
  simp only [List.append_assoc, List.cons_append, List.nil_append]
  rw [nestingFrom_blanks hb, hopen, h, nestingFrom_blanks hb', hclose]
  omega

mutual

theorem IsExpression.nests {text : List Char} {rule : Rule} :
    IsExpression text rule n → Nests text n
  | .term h => h.nests
  | .chain c hl hb hr => hl.nests.chain hb c hr.nests

theorem IsTerm.nests {text : List Char} {rule : Rule} : IsTerm text rule n → Nests text n
  | .comparison h => h.nests
  | .enclosed hb h hb' => h.nests.enclosed hb hb'

end

/-- The number that the grammar gives with a text is that of its parentheses. -/
theorem IsRuleText.parenthesisDepth_eq {text : String} (h : IsRuleText text.toList rule n) :
    parenthesisDepth text = n := by
  obtain ⟨expression, blanks, ht, he, hb⟩ := h
  have hend : nestingFrom false 0 (blanks ++ []) = 0 := nestingFrom_blanks hb 0
  rw [parenthesisDepth, ht, ← List.append_nil blanks, he.nests, hend, Nat.max_zero, Nat.zero_add]

end Eligibility
