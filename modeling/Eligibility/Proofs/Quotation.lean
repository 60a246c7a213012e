import Eligibility.Proofs.Recognition
import Mathlib.Data.List.Basic

namespace Eligibility
set_option autoImplicit true

/-- The text literals of a rule from left to right. -/
def Rule.texts : Rule → List String
  | .operand _ _ (.number _) => []
  | .operand _ _ (.text value) => [value]
  | .operator _ left right => left.texts ++ right.texts

/-- The rule with another text in place of its text literal number `k`, counted from zero on and
from left to right. -/
def Rule.setText (k : Nat) (value : String) : Rule → Rule
  | .operand field comparator (.number n) => .operand field comparator (.number n)
  | .operand field comparator (.text own) =>
    .operand field comparator (.text (if k = 0 then value else own))
  | .operator connective left right =>
    if k < left.texts.length then .operator connective (left.setText k value) right
    else .operator connective left (right.setText (k - left.texts.length) value)

/-- The text cut at two quotes that follow each other, with `2 * k` quotes before them. -/
def IsQuotation (k : Nat) (before quoted after text : List Char) : Prop :=
  text = before ++ '\'' :: (quoted ++ '\'' :: after) ∧ before.count '\'' = 2 * k ∧ '\'' ∉ quoted

/-- Each pair of quotes in the text belongs to a text literal of the rule, and the text remains one
of these texts when other characters stand between the two quotes. -/
structure Requotable (texts : List Char → Rule → Prop) (text : List Char) (rule : Rule) :
    Prop where
  count : text.count '\'' = 2 * rule.texts.length
  literal : ∀ ⦃k before quoted after⦄, IsQuotation k before quoted after text →
    rule.texts[k]? = some (String.ofList quoted)
  requote : ∀ ⦃k before quoted after⦄, IsQuotation k before quoted after text →
    ∀ ⦃inserted⦄, '\'' ∉ inserted →
      texts (before ++ '\'' :: (inserted ++ '\'' :: after))
        (rule.setText k (String.ofList inserted))

variable {text left right plain before quoted after : List Char} {rule l r : Rule}

theorem Rule.depth_setText (rule : Rule) (k : Nat) (value : String) :
    (rule.setText k value).depth = rule.depth := by
  induction rule generalizing k with
  | operand field comparator literal => cases literal <;> rfl
  | operator connective left right ihl ihr =>
    rw [setText]
    split
    · rw [depth, depth, ihl]
    · rw [depth, depth, ihr]

theorem Rule.texts_setText (rule : Rule) (k : Nat) (value : String) :
    (rule.setText k value).texts = rule.texts.set k value := by
  induction rule generalizing k with
  | operand field comparator literal =>
    cases literal with
    | number n => rfl
    | text own =>
      cases k with
      | zero => rfl
      | succ k => rfl
  | operator connective left right ihl ihr =>
    rw [setText]
    split
    case isTrue hk => rw [texts, texts, ihl, List.set_append_left _ _ hk]
    case isFalse hk => rw [texts, texts, ihr, List.set_append_right _ _ (Nat.le_of_not_lt hk)]

theorem IsQuotation.mem (h : IsQuotation k before quoted after text) : '\'' ∈ text := by
  rw [h.1]
  exact List.mem_append_right _ List.mem_cons_self

/-- A part with an even number of quotes does not end inside the quotation that it begins with. -/
theorem even_front_of_quotation (h : '\'' :: (quoted ++ '\'' :: after) = front ++ right)
    (hq : '\'' ∉ quoted) (heven : front.count '\'' % 2 = 0) :
    front = [] ∨ ∃ inner, front = '\'' :: (quoted ++ '\'' :: inner) ∧ after = inner ++ right := by
  rcases List.cons_eq_append_iff.1 h with ⟨rfl, -⟩ | ⟨inside, rfl, hinside⟩
  · exact .inl rfl
  · rw [List.count_cons_self] at heven
    rcases List.append_eq_append_iff.1 hinside with ⟨tail, rfl, htail⟩ | ⟨tail, rfl, -⟩
    · rcases List.cons_eq_append_iff.1 htail with ⟨rfl, -⟩ | ⟨inner, rfl, hafter⟩
      · rw [List.append_nil, List.count_eq_zero.2 hq] at heven
        cases heven
      · exact .inr ⟨inner, rfl, hafter⟩
    · have hinside : '\'' ∉ inside := fun hm => hq (List.mem_append_left _ hm)
      rw [List.count_eq_zero.2 hinside] at heven
      cases heven

/-- Two quotes that belong together stand on the same side of a cut that leaves an even number of
quotes on its left. -/
theorem IsQuotation.of_append (h : IsQuotation k before quoted after (left ++ right))
    (hl : left.count '\'' = 2 * m) :
    (k < m ∧ ∃ inner, after = inner ++ right ∧ IsQuotation k before quoted inner left) ∨
      (m ≤ k ∧ ∃ inner, before = left ++ inner ∧
        IsQuotation (k - m) inner quoted after right) := by
  obtain ⟨htext, hb, hq⟩ := h
  rcases List.append_eq_append_iff.1 htext with ⟨inner, rfl, hright⟩ | ⟨front, rfl, hfront⟩
  · rw [List.count_append, hl] at hb
    exact .inr ⟨by omega, inner, rfl, hright, by omega, hq⟩
  · rw [List.count_append, hb] at hl
    rcases even_front_of_quotation hfront hq (by omega) with rfl | ⟨inner, rfl, hafter⟩
    · have hm : m = k := by
        rw [List.count_nil] at hl
        omega
      right
      refine ⟨Nat.le_of_eq hm, [], by simp only [List.append_nil], hfront.symm, ?_, hq⟩
      rw [hm, Nat.sub_self, List.count_nil]
    · rw [List.count_cons_self] at hl
      exact .inl ⟨by omega, inner, hafter, rfl, hb, hq⟩

theorem IsQuotation.of_plain_append (h : IsQuotation k before quoted after (plain ++ text))
    (hp : '\'' ∉ plain) :
    ∃ inner, before = plain ++ inner ∧ IsQuotation k inner quoted after text := by
  have hcount : plain.count '\'' = 2 * 0 := List.count_eq_zero.2 hp
  rcases h.of_append hcount with ⟨hk, -⟩ | ⟨-, inner, hb, hq⟩
  · exact absurd hk (Nat.not_lt_zero k)
  · exact ⟨inner, hb, hq⟩

theorem IsQuotation.of_append_plain (h : IsQuotation k before quoted after (text ++ plain))
    (hc : text.count '\'' = 2 * m) (hp : '\'' ∉ plain) :
    ∃ inner, after = inner ++ plain ∧ IsQuotation k before quoted inner text := by
  rcases h.of_append hc with ⟨-, inner, ha, hq⟩ | ⟨-, inner, -, hq⟩
  · exact ⟨inner, ha, hq⟩
  · exact absurd hq.mem hp

theorem Requotable.mono (h : Requotable P text rule)
    (hi : ∀ {text rule}, P text rule → Q text rule) : Requotable Q text rule :=
  ⟨h.count, h.literal, fun _ _ _ _ hq _ hw => hi (h.requote hq hw)⟩

theorem Requotable.plain_append (h : Requotable P text rule) (hp : '\'' ∉ plain)
    (hi : ∀ {text rule}, P text rule → Q (plain ++ text) rule) :
    Requotable Q (plain ++ text) rule where
  count := by rw [List.count_append, List.count_eq_zero.2 hp, h.count, Nat.zero_add]
  literal k before quoted after hq := by
    obtain ⟨inner, -, hinner⟩ := hq.of_plain_append hp
    exact h.literal hinner
  requote k before quoted after hq inserted hw := by
    obtain ⟨inner, rfl, hinner⟩ := hq.of_plain_append hp
    rw [List.append_assoc]
    exact hi (h.requote hinner hw)

theorem Requotable.append_plain (h : Requotable P text rule) (hp : '\'' ∉ plain)
    (hi : ∀ {text rule}, P text rule → Q (text ++ plain) rule) :
    Requotable Q (text ++ plain) rule where
  count := by rw [List.count_append, List.count_eq_zero.2 hp, h.count, Nat.add_zero]
  literal k before quoted after hq := by
    obtain ⟨inner, -, hinner⟩ := hq.of_append_plain h.count hp
    exact h.literal hinner
  requote k before quoted after hq inserted hw := by
    obtain ⟨inner, rfl, hinner⟩ := hq.of_append_plain h.count hp
    have hj := hi (h.requote hinner hw)
    simpa only [List.append_assoc, List.cons_append] using hj

theorem Requotable.append (hl : Requotable P left l) (hr : Requotable Q right r)
    (hi : ∀ {left right l r}, P left l → Q right r → R (left ++ right) (.operator c l r))
    (hpl : P left l) (hqr : Q right r) :
    Requotable R (left ++ right) (.operator c l r) where
  count := by rw [List.count_append, hl.count, hr.count, Rule.texts, List.length_append,
    Nat.mul_add]
  literal k before quoted after hq := by
    rw [Rule.texts]
    rcases hq.of_append hl.count with ⟨hk, inner, -, hinner⟩ | ⟨hk, inner, -, hinner⟩
    · rw [List.getElem?_append_left hk]
      exact hl.literal hinner
    · rw [List.getElem?_append_right hk]
      exact hr.literal hinner
  requote k before quoted after hq inserted hw := by
    rw [Rule.setText]
    rcases hq.of_append hl.count with ⟨hk, inner, rfl, hinner⟩ | ⟨hk, inner, rfl, hinner⟩
    · rw [if_pos hk]
      have hj := hi (hl.requote hinner hw) hqr
      simpa only [List.append_assoc, List.cons_append] using hj
    · rw [if_neg (Nat.not_lt_of_le hk), List.append_assoc]
      exact hi hpl (hr.requote hinner hw)

theorem IsBlanks.no_quote (h : IsBlanks blanks) : '\'' ∉ blanks := by
  intro hm
  cases h _ hm

theorem IsName.no_quote (h : IsName name) : '\'' ∉ name := by
  intro hm
  have hc := h.2 _ hm
  revert hc
  decide

theorem Comparator.no_quote (c : Comparator) : '\'' ∉ c.chars := by
  cases c <;> decide

theorem IsQuotation.of_literal
    (h : IsQuotation k before own after ('\'' :: (quoted ++ ['\'']))) (hq : '\'' ∉ quoted) :
    k = 0 ∧ before = [] ∧ own = quoted ∧ after = [] := by
  obtain ⟨htext, hb, hown⟩ := h
  have hcount := congrArg (List.count '\'') htext
  simp only [List.count_append, List.count_cons_self, List.count_nil, List.count_eq_zero.2 hq,
    List.count_eq_zero.2 hown, hb] at hcount
  have hk : k = 0 := by omega
  cases before with
  | nil =>
    have hrest := List.tail_eq_of_cons_eq htext
    obtain ⟨rfl, -, rfl⟩ := (List.append_cons_inj_of_notMem hq List.not_mem_nil).1 hrest
    exact ⟨hk, rfl, rfl, rfl⟩
  | cons c before =>
    obtain rfl := (List.cons.inj htext).1
    rw [List.count_cons_self] at hb
    omega

theorem IsLiteral.requotable (h : IsLiteral text value) (field : String) (c : Comparator) :
    Requotable (fun text rule => ∃ value, rule = .operand field c value ∧ IsLiteral text value)
      text (.operand field c value) := by
  cases h with
  | @text quoted hquoted =>
    constructor
    · simp only [List.count_cons_self, List.count_append, List.count_eq_zero.2 hquoted,
        List.count_nil]
      rfl
    · intro k before own after hq
      obtain ⟨rfl, rfl, rfl, rfl⟩ := hq.of_literal hquoted
      rfl
    · intro k before own after hq inserted hw
      obtain ⟨rfl, rfl, rfl, rfl⟩ := hq.of_literal hquoted
      exact ⟨_, rfl, .text hw⟩
  | number hne hd hv =>
    have hplain : '\'' ∉ text := by
      intro hm
      cases hd _ hm
    constructor
    · exact List.count_eq_zero.2 hplain
    · intro k before own after hq
      exact absurd hq.mem hplain
    · intro k before own after hq
      exact absurd hq.mem hplain

theorem IsComparison.requotable (h : IsComparison text rule) :
    Requotable IsComparison text rule := by
  obtain ⟨c, hb, hn, hb', hs, hb'', hl⟩ := h
  simp only [← List.append_assoc]
  apply (hl.requotable _ c).plain_append
  · simp only [List.mem_append, hb.no_quote, hn.no_quote, hb'.no_quote, c.no_quote,
      hb''.no_quote, or_self, not_false_eq_true]
  · rintro _ _ ⟨value, rfl, hl⟩
    have hc := IsComparison.intro c hb hn hb' hs hb'' hl
    simpa only [List.append_assoc] using hc

theorem Requotable.chain (hl : Requotable (IsExpression · · m) left l)
    (hr : Requotable (IsTerm · · n) right r) (hleft : IsExpression left l m)
    (hb : IsBlanks blanks) (c : Comparator) (hright : IsTerm right r n) :
    Requotable (IsExpression · · (max m n)) (left ++ (blanks ++ (c.chars ++ right)))
      (.operator c l r) := by
  have hplain : '\'' ∉ blanks ++ c.chars := by
    simp only [List.mem_append, hb.no_quote, c.no_quote, or_self, not_false_eq_true]
  have hlink : Requotable
      (fun text rule => ∃ right, text = blanks ++ c.chars ++ right ∧ IsTerm right rule n)
      (blanks ++ c.chars ++ right) r :=
    hr.plain_append hplain fun h => ⟨_, rfl, h⟩
  rw [← List.append_assoc blanks]
  apply hl.append hlink ?_ hleft ⟨right, rfl, hright⟩
  rintro left _ l r hleft ⟨right, rfl, hright⟩
  rw [List.append_assoc]
  exact .chain c hleft hb hright

theorem Requotable.enclosed (h : Requotable (IsExpression · · n) text rule)
    (hb : IsBlanks blanks) (hb' : IsBlanks blanks') :
    Requotable (IsTerm · · (n + 1)) (blanks ++ '(' :: (text ++ (blanks' ++ [')']))) rule := by
  have hopen : '\'' ∉ blanks ++ ['('] := by
    simp [hb.no_quote]
  have hclose : '\'' ∉ blanks' ++ [')'] := by
    simp [hb'.no_quote]
  have hinner : Requotable
      (fun text rule => ∃ inner, text = inner ++ (blanks' ++ [')']) ∧ IsExpression inner rule n)
      (text ++ (blanks' ++ [')'])) rule :=
    h.append_plain hclose fun h => ⟨_, rfl, h⟩
  rw [List.append_cons]
  apply hinner.plain_append hopen
  rintro _ rule ⟨inner, rfl, h⟩
  rw [← List.append_cons]
  exact .enclosed hb h hb'

mutual

theorem IsExpression.requotable {text : List Char} {rule : Rule} :
    IsExpression text rule n → Requotable (IsExpression · · n) text rule
  | .term h => h.requotable.mono .term
  | .chain c hl hb hr => hl.requotable.chain hr.requotable hl hb c hr

theorem IsTerm.requotable {text : List Char} {rule : Rule} :
    IsTerm text rule n → Requotable (IsTerm · · n) text rule
  | .comparison h => h.requotable.mono .comparison
  | .enclosed hb h hb' => h.requotable.enclosed hb hb'

end

theorem Derives.requotable (h : Derives text rule) : Requotable Derives text rule := by
  obtain ⟨hd, n, hn, expression, blanks, rfl, he, hb⟩ := h
  have hq : Requotable (IsRuleText · · n) (expression ++ blanks) rule :=
    he.requotable.append_plain hb.no_quote fun h => ⟨_, _, rfl, h, hb⟩
  constructor
  · exact hq.count
  · exact hq.literal
  · intro k before quoted after hquotation inserted hw
    rw [Derives, Rule.depth_setText]
    exact ⟨hd, n, hn, hq.requote hquotation hw⟩

/-- The characters between two quotes make up one text literal of the rule and have no other part in
it: with whatever else in their place, other than a quote, the text is that of the same rule with
another literal there. -/
theorem Rule.parse_setText {text : String} (h : parse text = .ok rule) :
    text.toList.count '\'' = 2 * rule.texts.length ∧
      ∀ (k : Nat) (before quoted after inserted : String),
        text = before ++ "'" ++ quoted ++ "'" ++ after → before.toList.count '\'' = 2 * k →
        '\'' ∉ quoted.toList → '\'' ∉ inserted.toList →
        rule.texts[k]? = some quoted ∧
          (rule.setText k inserted).texts = rule.texts.set k inserted ∧
          parse (before ++ "'" ++ inserted ++ "'" ++ after) = .ok (rule.setText k inserted) := by
  have hr := (derives_of_parse h).requotable
  apply And.intro hr.count
  intro k before quoted after inserted ht hb hq hw
  have htoList : ∀ part : String, (before ++ "'" ++ part ++ "'" ++ after).toList =
      before.toList ++ '\'' :: (part.toList ++ '\'' :: after.toList) := by
    intro part
    simp [String.toList_append]
  have hquotation : IsQuotation k before.toList quoted.toList after.toList text.toList := by
    rw [ht, htoList]
    exact ⟨rfl, hb, hq⟩
  have hliteral := hr.literal hquotation
  have hderives := hr.requote hquotation hw
  rw [String.ofList_toList] at hliteral hderives
  rw [← htoList] at hderives
  exact ⟨hliteral, rule.texts_setText k inserted, parse_of_derives hderives⟩

/-- A parenthesis, a connective and a comparison inside the quotes stay part of the literal. -/
theorem Rule.parse_setText_injected :
    let rule : Rule := .operator .and (.operand "department" .equal (.text "(Sales"))
      (.operator .or (.operand "department" .equal (.text "R"))
        (.operand "age" .greater (.number 30)))
    parse "department = '(Sales' AND (department = 'R' OR age > 30)" = .ok rule ∧
      "department = '(Sales' AND (department = 'R' OR age > 30)" =
        "department = '(Sales' AND (department = " ++ "'" ++ "R" ++ "'" ++ " OR age > 30)" ∧
      "department = '(Sales' AND (department = ".toList.count '\'' = 2 * 1 ∧
      '\'' ∉ "R".toList ∧ '\'' ∉ "ß) OR age >= 0 OR (x = y".toList ∧
      parse ("department = '(Sales' AND (department = " ++ "'" ++ "ß) OR age >= 0 OR (x = y" ++
        "'" ++ " OR age > 30)") = .ok (rule.setText 1 "ß) OR age >= 0 OR (x = y") := by
  intro rule
  have h : parse "department = '(Sales' AND (department = 'R' OR age > 30)" = .ok rule := by
    decide +kernel
  have ht : "department = '(Sales' AND (department = 'R' OR age > 30)" =
      "department = '(Sales' AND (department = " ++ "'" ++ "R" ++ "'" ++ " OR age > 30)" := by
    decide
  have hb : "department = '(Sales' AND (department = ".toList.count '\'' = 2 * 1 := by decide
  have hq : '\'' ∉ "R".toList := by decide
  have hw : '\'' ∉ "ß) OR age >= 0 OR (x = y".toList := by decide
  exact ⟨h, ht, hb, hq, hw, ((parse_setText h).2 1 _ _ _ _ ht hb hq hw).2.2⟩

end Eligibility
