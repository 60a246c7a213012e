import Eligibility.Proofs.Recognition

namespace Eligibility
set_option autoImplicit true

/-- What goes on after an expression does not prolong a number at its end. -/
theorem Continues.tail (h : Continues start l m text rule n) :
    ∃ tail, text = start ++ tail ∧
      ∀ rest, Stops isNumberChar rest → Stops isNumberChar (tail ++ rest) := by
  induction h with
  | refl => exact ⟨[], (List.append_nil _).symm, fun _ hs => hs⟩
  | @chain _ _ _ blanks right _ _ c h hb hr ih =>
    obtain ⟨tail, ht, hs⟩ := ih
    refine ⟨tail ++ (blanks ++ (c.chars ++ right)), ?_, ?_⟩
    · rw [ht, List.append_assoc]
    · intro rest _
      simp only [List.append_assoc]
      exact hs _ (stops_connective hb c)

theorem skipBlanks_inj (hb : IsBlanks blanks) (hb' : IsBlanks blanks') (hs : Stops isBlank rest)
    (hs' : Stops isBlank rest') (he : blanks ++ rest = blanks' ++ rest') : rest = rest' := by
  have h := congrArg skipBlanks he
  rwa [skipBlanks_append hb hs, skipBlanks_append hb' hs'] at h

theorem parenthesis_inj (hc : isBlank c = false) (hb : IsBlanks blanks) (hb' : IsBlanks blanks')
    (he : blanks ++ c :: rest = blanks' ++ c :: rest') : rest = rest' :=
  List.tail_eq_of_cons_eq (skipBlanks_inj hb hb' hc hc he)

theorem connective_inj {c d : Comparator} (hb : IsBlanks blanks) (hb' : IsBlanks blanks')
    (hs : Stops (· == '=') rest) (hs' : Stops (· == '=') rest')
    (he : blanks ++ (c.chars ++ rest) = blanks' ++ (d.chars ++ rest')) :
    blanks = blanks' ∧ c = d ∧ rest = rest' := by
  have h := congrArg scanComparator he
  rw [scanComparator_append hb hs, scanComparator_append hb' hs'] at h
  cases h
  exact ⟨List.append_cancel_right he, rfl, rfl⟩

/-- Of two expressions at the front of the same input one goes on from the other. -/
def ExpressionDetermined (text : List Char) (rule : Rule) (n : Nat) : Prop :=
  ∀ ⦃other r k u v⦄, IsExpression other r k → text ++ u = other ++ v → Stops isNumberChar u →
    Stops isNumberChar v → Continues text rule n other r k ∨ Continues other r k text rule n

def TermDetermined (text : List Char) (rule : Rule) (n : Nat) : Prop :=
  ∀ ⦃other r k u v⦄, IsTerm other r k → text ++ u = other ++ v → Stops isNumberChar u →
    Stops isNumberChar v → text = other ∧ rule = r ∧ n = k

theorem TermDetermined.expression (h : TermDetermined text rule n) :
    ExpressionDetermined text rule n := by
  intro other r k u v ho he hu hv
  obtain ⟨start, l, m, ht, hc⟩ := ho.first
  obtain ⟨tail, rfl, hs⟩ := hc.tail
  rw [List.append_assoc] at he
  obtain ⟨rfl, rfl, rfl⟩ := h ht he hu (hs v hv)
  exact .inl hc

theorem ExpressionDetermined.chain (hl : ExpressionDetermined left l m) (hb : IsBlanks blanks)
    (c : Comparator) (hright : IsTerm right r n) (hr : TermDetermined right r n) :
    ExpressionDetermined (left ++ (blanks ++ (c.chars ++ right))) (.operator c l r) (max m n) := by
  intro other rule k u v ho he hu hv
  simp only [List.append_assoc] at he
  obtain hc | hc := hl ho he (stops_connective hb c) hv
  · obtain ⟨rfl, rfl, rfl⟩ | ⟨blanks', d, right', r', n', hb', hright', hc⟩ := hc.head
    · exact .inr (.chain c .refl hb hright)
    · obtain ⟨tail, rfl, hs⟩ := hc.tail
      simp only [List.append_assoc] at he
      obtain ⟨rfl, rfl, hafter⟩ := connective_inj hb hb' hright.stops_equals
        hright'.stops_equals (List.append_cancel_left he)
      obtain ⟨rfl, rfl, rfl⟩ := hr hright' hafter hu (hs v hv)
      exact .inl hc
  · exact .inr (.chain c hc hb hright)

/-- An expression goes on as long as a comparator follows. -/
theorem Continues.eq_of_none (h : Continues text rule n other r k) (he : text ++ u = other ++ v)
    (hu : scanComparator u = none) : text = other ∧ rule = r ∧ n = k := by
  obtain heq | ⟨blanks, c, right, _, _, hb, hr, hc⟩ := h.head
  · exact heq
  · obtain ⟨tail, rfl, -⟩ := hc.tail
    simp only [List.append_assoc] at he
    rw [List.append_cancel_left he, scanComparator_append hb hr.stops_equals] at hu
    cases hu

theorem ExpressionDetermined.eq (h : ExpressionDetermined text rule n)
    (ho : IsExpression other r k) (he : text ++ u = other ++ v) (hu : Stops isNumberChar u)
    (hv : Stops isNumberChar v) (hcu : scanComparator u = none) (hcv : scanComparator v = none) :
    text = other ∧ rule = r ∧ n = k := by
  obtain hc | hc := h ho he hu hv
  · exact hc.eq_of_none he hcu
  · obtain ⟨rfl, rfl, rfl⟩ := hc.eq_of_none he.symm hcv
    exact ⟨rfl, rfl, rfl⟩

theorem IsComparison.not_open (h : IsComparison text rule) (hb : IsBlanks blanks)
    (he : text ++ u = blanks ++ '(' :: v) : False := by
  obtain ⟨blanks', c, tail, hb', rfl, hc⟩ := h.head
  rw [List.append_assoc] at he
  have hs : Stops isBlank (c :: (tail ++ u)) := not_isBlank_of_isNameChar hc
  have hs' : Stops isBlank ('(' :: v) := rfl
  cases skipBlanks_inj hb' hb hs hs' he
  revert hc
  decide

theorem IsComparison.determined (h : IsComparison text rule) : TermDetermined text rule 0 := by
  intro other r k u v ho he hu hv
  cases ho with
  | comparison ho =>
    have hs := h.scan hu
    rw [he, ho.scan hv] at hs
    cases hs
    exact ⟨List.append_cancel_right he, rfl, rfl⟩
  | enclosed hb =>
    rw [List.append_assoc, List.cons_append] at he
    exact (h.not_open hb he).elim

theorem stops_close (hb : IsBlanks blanks) : Stops isNumberChar (blanks ++ ')' :: rest) :=
  hb.stops (fun _ => not_isNumberChar_of_isBlank) rfl

theorem ExpressionDetermined.enclosed (h : ExpressionDetermined text rule n)
    (hb : IsBlanks blanks) (hb' : IsBlanks blanks') :
    TermDetermined (blanks ++ '(' :: (text ++ (blanks' ++ [')']))) rule (n + 1) := by
  intro other r k u v ho he hu hv
  have hwhole := he
  simp only [List.append_assoc, List.cons_append, List.nil_append] at he
  cases ho with
  | comparison ho => exact (ho.not_open hb he.symm).elim
  | enclosed hd ho hd' =>
    simp only [List.append_assoc, List.cons_append, List.nil_append] at he
    have hinside := parenthesis_inj rfl hb hd he
    obtain ⟨rfl, rfl, rfl⟩ := h.eq ho hinside (stops_close hb') (stops_close hd')
      (scanComparator_close hb') (scanComparator_close hd')
    obtain rfl := parenthesis_inj rfl hb' hd' (List.append_cancel_left hinside)
    exact ⟨List.append_cancel_right hwhole, rfl, rfl⟩

mutual

theorem IsExpression.determined {text : List Char} {rule : Rule} :
    IsExpression text rule n → ExpressionDetermined text rule n
  | .term h => h.determined.expression
  | .chain c hl hb hr => hl.determined.chain hb c hr hr.determined

theorem IsTerm.determined {text : List Char} {rule : Rule} :
    IsTerm text rule n → TermDetermined text rule n
  | .comparison h => h.determined
  | .enclosed hb h hb' => h.determined.enclosed hb hb'

end

/-- The grammar is unambiguous, whatever the limits. -/
theorem IsRuleText.unique (h : IsRuleText text rule m) (h' : IsRuleText text other n) :
    rule = other ∧ m = n := by
  obtain ⟨expression, blanks, rfl, he, hb⟩ := h
  obtain ⟨expression', blanks', ht, he', hb'⟩ := h'
  have hs : Stops isNumberChar (blanks ++ []) :=
    hb.stops (fun _ => not_isNumberChar_of_isBlank) trivial
  have hs' : Stops isNumberChar (blanks' ++ []) :=
    hb'.stops (fun _ => not_isNumberChar_of_isBlank) trivial
  rw [List.append_nil] at hs hs'
  exact (he.determined.eq he' ht hs hs' (scanComparator_blanks hb) (scanComparator_blanks hb')).2

/-- The parser accepts the texts of the grammar that keep the two limits, each as the one rule that
the grammar gives it. -/
theorem Rule.parse_eq_ok_iff_derives (text : String) (rule : Rule) :
    (Rule.parse text = .ok rule ↔ Derives text.toList rule) ∧
      ∀ other m n, IsRuleText text.toList rule m → IsRuleText text.toList other n →
        rule = other ∧ m = n :=
  ⟨⟨derives_of_parse, parse_of_derives⟩, fun _ _ _ => IsRuleText.unique⟩

/-- A number ends where a connective starts, whereas a name runs on up to the blank. The parenthesis
between quotes belongs to the literal. -/
theorem Rule.derives_without_blanks :
    let rule : Rule :=
      .operator .and (.operand "a" .equal (.number 1)) (.operand "x" .or (.text "("))
    Derives "a=01AND(x OR'(')".toList rule ∧
      ∀ other n, IsRuleText "a=01AND(x OR'(')".toList other n → rule = other := by
  intro rule
  have hsome : (parse "a=01AND(x OR'(')").toOption = some rule := by decide +kernel
  have hp : parse "a=01AND(x OR'(')" = .ok rule := by
    cases hp : parse "a=01AND(x OR'(')" with
    | error error =>
      rw [hp] at hsome
      cases hsome
    | ok other =>
      rw [hp] at hsome
      cases hsome
      rfl
  have hd := (parse_eq_ok_iff_derives _ rule).1.1 hp
  refine ⟨hd, ?_⟩
  obtain ⟨-, nesting, -, ht⟩ := hd
  intro other n ho
  exact ((parse_eq_ok_iff_derives _ rule).2 other nesting n ht ho).1

end Eligibility
