import Eligibility.Proofs.FaultSites
import Eligibility.Proofs.Nesting
import Eligibility.Proofs.RoundTrip

namespace Eligibility
set_option autoImplicit true

/-- The text with that many parentheses around it. -/
def parenthesized (k : Nat) (text : String) : String :=
  String.ofList (List.replicate k '(' ++ (text.toList ++ List.replicate k ')'))

/-- Whether the text ends between quotes, and how many parentheses are open there. -/
def openBehind (quoted : Bool) (opened : Nat) : List Char → Bool × Nat
  | [] => (quoted, opened)
  | c :: rest =>
    if c = '\'' then openBehind (!quoted) opened rest
    else if quoted then openBehind true opened rest
    else if c = '(' then openBehind false (opened + 1) rest
    else if c = ')' then openBehind false (opened - 1) rest
    else openBehind false opened rest

/-- Behind `before` the text opens a parenthesis inside `n` open ones. -/
def OpensInside (n : Nat) (text before : List Char) : Prop :=
  openBehind false 0 before = (false, n) ∧ ∃ after, text = before ++ '(' :: after

/-- No parenthesis further in front opens inside as many. -/
def OpensFirstInside (n : Nat) (text before : List Char) : Prop :=
  OpensInside n text before ∧ ∀ other, OpensInside n text other → before <+: other

/-- Behind `before` the text opens one parenthesis more than there is room for, and not earlier. -/
structure OverflowsAt (room : Nat) (text before after : List Char) : Prop where
  split : text = before ++ '(' :: after
  below : ∀ opened, nestingFrom false opened before ≤ opened + room
  above : ∀ opened, nestingFrom false opened (before ++ ['(']) = opened + (room + 1)

variable {text rest left right before after : List Char} {rule l r : Rule}

theorem nestingFrom_append (quoted : Bool) (opened : Nat) (text rest : List Char) :
    nestingFrom quoted opened (text ++ rest) = max (nestingFrom quoted opened text)
      (nestingFrom (openBehind quoted opened text).1 (openBehind quoted opened text).2 rest) := by
  induction text generalizing quoted opened with
  | nil => exact (Nat.max_eq_right (le_nestingFrom _ _ _)).symm
  | cons c text ih =>
    rw [List.cons_append, nestingFrom, nestingFrom, openBehind]
    split
    · exact ih _ _
    · split
      · exact ih _ _
      · split
        · exact ih _ _
        · split
          · rw [ih, Nat.max_assoc]
          · exact ih _ _

theorem openBehind_le_nestingFrom (quoted : Bool) (opened : Nat) (text : List Char) :
    (openBehind quoted opened text).2 ≤ nestingFrom quoted opened text := by
  have happ := nestingFrom_append quoted opened text []
  rw [List.append_nil, nestingFrom] at happ
  omega

/-- The parenthesis with which a text first nests too deep stands inside all that are allowed. -/
theorem OverflowsAt.openBehind_eq (h : OverflowsAt room text before after) :
    openBehind false 0 before = (false, room) := by
  have hbelow := h.below 0
  have habove := h.above 0
  have hopened := openBehind_le_nestingFrom false 0 before
  rw [nestingFrom_append] at habove
  cases hplace : openBehind false 0 before with
  | mk quoted opened =>
    rw [hplace] at habove hopened
    dsimp only at habove hopened
    cases quoted with
    | true =>
      have hquoted : nestingFrom true opened ['('] = opened := rfl
      omega
    | false =>
      have hopen : nestingFrom false opened ['('] = opened + 1 := rfl
      have hroom : opened = room := by omega
      rw [hroom]

/-- A text that does not nest too deep has no parenthesis inside all that are allowed. -/
theorem OverflowsAt.prefix_of_opensInside (h : OverflowsAt room text before after)
    (ho : OpensInside room text other) : before <+: other := by
  obtain ⟨hother, after', hsplit⟩ := ho
  rcases List.append_eq_append_iff.1 (h.split.symm.trans hsplit) with
    ⟨tail, rfl, -⟩ | ⟨tail, hbefore, htail⟩
  · exact List.prefix_append _ _
  · cases tail with
    | nil =>
      obtain rfl : before = other := hbefore.trans (List.append_nil other)
      exact List.prefix_refl before
    | cons c tail =>
      obtain ⟨rfl, -⟩ := List.cons.inj htail
      have hbelow := h.below 0
      have hdeep : room + 1 ≤ nestingFrom false room ('(' :: tail) := le_nestingFrom false _ tail
      rw [hbefore, nestingFrom_append, hother] at hbelow
      dsimp only at hbelow
      omega

theorem OverflowsAt.opensFirstInside (h : OverflowsAt room text before after) :
    OpensFirstInside room text before :=
  ⟨⟨h.openBehind_eq, after, h.split⟩, fun _ => h.prefix_of_opensInside⟩

theorem OverflowsAt.here (hb : IsBlanks blanks) :
    OverflowsAt 0 (blanks ++ '(' :: after) blanks after where
  split := rfl
  below opened := by
    have hn : nestingFrom false opened (blanks ++ []) = opened := nestingFrom_blanks hb opened
    rw [List.append_nil] at hn
    exact Nat.le_of_eq hn
  above opened := nestingFrom_blanks hb opened

theorem OverflowsAt.append (h : OverflowsAt room text before after) (rest : List Char) :
    OverflowsAt room (text ++ rest) before (after ++ rest) where
  split := by rw [h.split, List.append_assoc, List.cons_append]
  below := h.below
  above := h.above

theorem OverflowsAt.enclosed (h : OverflowsAt room text before after) (hb : IsBlanks blanks) :
    OverflowsAt (room + 1) (blanks ++ '(' :: text) (blanks ++ '(' :: before) after := by
  have hopen (opened : Nat) (rest : List Char) :
      nestingFrom false opened (blanks ++ '(' :: rest) = nestingFrom false (opened + 1) rest :=
    nestingFrom_blanks hb opened
  constructor
  · rw [h.split, List.append_assoc, List.cons_append]
  · intro opened
    rw [hopen]
    have hbelow := h.below (opened + 1)
    omega
  · intro opened
    rw [List.append_assoc, List.cons_append, hopen, h.above]
    omega

theorem OverflowsAt.chain (h : OverflowsAt room right before after) (hl : Nests left m)
    (hm : m ≤ room) (hb : IsBlanks blanks) (c : Comparator) :
    OverflowsAt room (left ++ (blanks ++ (c.chars ++ right)))
      (left ++ (blanks ++ (c.chars ++ before))) after := by
  have hskip (opened : Nat) (rest : List Char) :
      nestingFrom false opened (left ++ (blanks ++ (c.chars ++ rest))) =
        max (opened + m) (nestingFrom false opened rest) := by
    rw [hl, nestingFrom_blanks hb, nestingFrom_run c.not_isMark]
  constructor
  · rw [h.split]
    simp only [List.append_assoc]
  · intro opened
    rw [hskip]
    have hbelow := h.below opened
    omega
  · intro opened
    simp only [List.append_assoc]
    rw [hskip, h.above]
    omega

/-- Where there is too little room, the scan of an expression stops at the first parenthesis that
is one too many. -/
def ExpressionOverflows (text : List Char) (rule : Rule) (nesting : Nat) : Prop :=
  rule.depth ≤ maxDepth → ∀ room < nesting, ∃ before after, OverflowsAt room text before after ∧
    ∀ rest, Stops isNumberChar rest →
      scanExpression (scanTerm room) (text ++ rest) =
        .error ⟨.nestedTooDeeply, '(' :: (after ++ rest)⟩

def TermOverflows (text : List Char) (rule : Rule) (nesting : Nat) : Prop :=
  rule.depth ≤ maxDepth → ∀ room < nesting, ∃ before after, OverflowsAt room text before after ∧
    ∀ rest, Stops isNumberChar rest →
      scanTerm room (text ++ rest) = .error ⟨.nestedTooDeeply, '(' :: (after ++ rest)⟩

theorem TermOverflows.expression (h : TermOverflows text rule nesting) :
    ExpressionOverflows text rule nesting := by
  intro hd room hroom
  obtain ⟨before, after, ho, hscan⟩ := h hd room hroom
  refine ⟨before, after, ho, ?_⟩
  intro rest hs
  rw [scanExpression, hscan rest hs]

theorem ExpressionOverflows.chain (hleft : IsExpression left l m)
    (hl : ExpressionOverflows left l m) (hb : IsBlanks blanks) (c : Comparator)
    (hright : IsTerm right r n) (hr : TermOverflows right r n) :
    ExpressionOverflows (left ++ (blanks ++ (c.chars ++ right))) (.operator c l r) (max m n) := by
  intro hd room hroom
  simp only [Rule.depth] at hd
  by_cases hm : m ≤ room
  · obtain ⟨before, after, ho, hscan⟩ := hr (by omega) room (by omega)
    refine ⟨_, after, ho.chain hleft.nests hm hb c, ?_⟩
    intro rest hs
    have hfits : Fits room l m := ⟨by omega, hm⟩
    have hc : scanComparator (blanks ++ (c.chars ++ (right ++ rest))) = some (c, right ++ rest) :=
      scanComparator_append hb hright.stops_equals
    simp only [List.append_assoc]
    rw [(hleft.scans room _ (stops_connective hb c)).1 hfits, scanChain_of_fault hc (hscan rest hs)]
  · obtain ⟨before, after, ho, hscan⟩ := hl (by omega) room (by omega)
    refine ⟨before, _, ho.append _, ?_⟩
    intro rest hs
    simp only [List.append_assoc]
    exact hscan _ (stops_connective hb c)

theorem ExpressionOverflows.enclosed (h : ExpressionOverflows text rule nesting)
    (hb : IsBlanks blanks) (hb' : IsBlanks blanks') :
    TermOverflows (blanks ++ '(' :: (text ++ (blanks' ++ [')']))) rule (nesting + 1) := by
  intro hd room hroom
  have hskip (tail rest : List Char) :
      skipBlanks (blanks ++ '(' :: tail ++ rest) = '(' :: (tail ++ rest) := by
    rw [List.append_assoc, List.cons_append]
    exact skipBlanks_append hb rfl
  cases room with
  | zero =>
    refine ⟨blanks, _, .here hb, ?_⟩
    intro rest hs
    exact scanTerm_no_room (hskip _ rest)
  | succ room =>
    obtain ⟨before, after, ho, hscan⟩ := h hd room (Nat.lt_of_succ_lt_succ hroom)
    refine ⟨_, _, (ho.append _).enclosed hb, ?_⟩
    intro rest hs
    have hclose : Stops isNumberChar (blanks' ++ ')' :: rest) :=
      hb'.stops (fun _ => not_isNumberChar_of_isBlank) rfl
    have hinside := hscan _ hclose
    rw [scanTerm_of_open (hskip _ rest), scanEnclosed]
    simp only [List.append_assoc, List.cons_append, List.nil_append, hinside]

mutual

theorem IsExpression.overflows {text : List Char} {rule : Rule} :
    IsExpression text rule nesting → ExpressionOverflows text rule nesting
  | .term h => h.overflows.expression
  | .chain c hl hb hr => .chain hl hl.overflows hb c hr hr.overflows

theorem IsTerm.overflows {text : List Char} {rule : Rule} :
    IsTerm text rule nesting → TermOverflows text rule nesting
  | .comparison _ => fun _ _ hroom => absurd hroom (Nat.not_lt_zero _)
  | .enclosed hb h hb' => h.overflows.enclosed hb hb'

end

/-- A text whose rule is shallow enough but whose parentheses are not is rejected at the first
parenthesis inside a hundred others. -/
theorem IsRuleText.parse_overflow {text : String} (h : IsRuleText text.toList rule nesting)
    (hd : rule.depth ≤ maxDepth) (hn : maxDepth < nesting) :
    ∃ before : String, Rule.parse text = .error ⟨before.utf8ByteSize, .nestedTooDeeply⟩ ∧
      OpensFirstInside maxDepth text.toList before.toList := by
  obtain ⟨expression, blanks, ht, he, hb⟩ := h
  obtain ⟨before, after, ho, hscan⟩ := he.overflows hd maxDepth hn
  have hs : Stops isNumberChar (blanks ++ []) :=
    hb.stops (fun _ => not_isNumberChar_of_isBlank) trivial
  rw [List.append_nil] at hs
  have hfault : Eligibility.scanRule text.toList =
      .error ⟨.nestedTooDeeply, '(' :: (after ++ blanks)⟩ := by
    rw [Eligibility.scanRule, ht, hscan blanks hs]
  have hwhole := ho.append blanks
  refine ⟨String.ofList before, ?_, ?_⟩
  · rw [Rule.parse_of_fault hfault, ht, hwhole.split, utf8Length_append, Nat.add_sub_cancel,
      utf8Length_eq_utf8ByteSize]
  · rw [String.toList_ofList, ht]
    exact hwhole.opensFirstInside

/-- Parentheses around a rule text leave its rule as it is. -/
theorem IsRuleText.parenthesized {text : String} (h : IsRuleText text.toList rule nesting)
    (k : Nat) : IsRuleText (parenthesized k text).toList rule (k + nesting) := by
  rw [Eligibility.parenthesized, String.toList_ofList]
  induction k with
  | zero => simpa using h
  | succ k ih =>
    obtain ⟨expression, blanks, ht, he, hb⟩ := ih
    have hterm := IsTerm.enclosed .nil he hb
    rw [← List.append_assoc, ← ht, Nat.add_right_comm] at hterm
    refine ⟨_, [], ?_, .term hterm, .nil⟩
    rw [List.replicate_succ, List.replicate_succ']
    simp only [List.append_assoc, List.cons_append, List.nil_append, List.append_nil]

/-- Parentheses around an accepted text change nothing as long as at most a hundred stand inside one
another, and beyond that the text is rejected at the first one inside a hundred others. The limit on
the levels of the rule stays apart from that on parentheses. -/
theorem Rule.parse_parenthesized {text : String} (h : parse text = .ok rule) (k : Nat) :
    (k + parenthesisDepth text ≤ 100 → parse (parenthesized k text) = .ok rule) ∧
      (100 < k + parenthesisDepth text → ∃ before : String,
        parse (parenthesized k text) = .error ⟨before.utf8ByteSize, .nestedTooDeeply⟩ ∧
        ParseError.Reason.nestedTooDeeply.message = "rule nested too deeply" ∧
        OpensFirstInside 100 (parenthesized k text).toList before.toList) ∧
      ∀ (other : String) (otherRule : Rule) (nesting : Nat),
        IsRuleText other.toList otherRule nesting →
        (parse (parenthesized k other) = .ok otherRule ↔
          otherRule.depth ≤ 100 ∧ k + nesting ≤ 100) := by
  obtain ⟨hd, nesting, -, ht⟩ := derives_of_parse h
  have hp := ht.parenthesized k
  rw [ht.parenthesisDepth_eq]
  refine ⟨fun hn => hp.parse.1 ⟨hd, hn⟩, ?_, ?_⟩
  · intro hn
    obtain ⟨before, he, hfirst⟩ := hp.parse_overflow hd hn
    exact ⟨before, he, rfl, hfirst⟩
  · intro other otherRule nesting hother
    have hparse := (hother.parenthesized k).parse
    constructor
    · intro hok
      by_contra hdeep
      obtain ⟨position, he⟩ := hparse.2 hdeep
      rw [hok] at he
      cases he
    · exact hparse.1

/-- The parentheses between quotes do not count, and the position counts bytes. -/
theorem Rule.parse_parenthesized_limits :
    let text := "ä = '((' OR ((b > 2))"
    let rule : Rule := .operator .or (.operand "ä" .equal (.text "(("))
      (.operand "b" .greater (.number 2))
    parse text = .ok rule ∧ parenthesisDepth text = 2 ∧
      parse (parenthesized 98 text) = .ok rule ∧
      ∃ before : String,
        parse (parenthesized 99 text) = .error ⟨before.utf8ByteSize, .nestedTooDeeply⟩ ∧
        ParseError.Reason.nestedTooDeeply.message = "rule nested too deeply" ∧
        OpensFirstInside 100 (parenthesized 99 text).toList before.toList := by
  intro text rule
  have hp : parse text = .ok rule := by decide +kernel
  have hn : parenthesisDepth text = 2 := by decide
  refine ⟨hp, hn, ?_, ?_⟩
  · exact (parse_parenthesized hp 98).1 (by simp [hn])
  · exact (parse_parenthesized hp 99).2.1 (by simp [hn])

end Eligibility
