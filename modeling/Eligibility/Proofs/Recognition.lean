import Eligibility.Proofs.Grammar

namespace Eligibility
set_option autoImplicit true

variable {text rest input : List Char} {rule : Rule} {term : List Char → Scan Subtree}

/-- The scan has the result if the limits allow it and reports too deep a nesting if they do not. -/
def EndsWithin (fits : Prop) (result scan : Except Fault α) : Prop :=
  (fits → scan = result) ∧ (¬ fits → ∃ unread, scan = .error ⟨.nestedTooDeeply, unread⟩)

/-- The two limits, with room for that many more parentheses. -/
def Fits (room : Nat) (rule : Rule) (nesting : Nat) : Prop :=
  rule.depth ≤ maxDepth ∧ nesting ≤ room

theorem scanName_skipBlanks (input : List Char) : scanName (skipBlanks input) = scanName input := by
  simp only [scanName, skipBlanks_skipBlanks]

theorem scanComparison_skipBlanks (input : List Char) :
    scanComparison (skipBlanks input) = scanComparison input := by
  simp only [scanComparison, scanName_skipBlanks]

theorem scanTerm_of_name (hi : skipBlanks input = c :: tail) (hc : c ≠ '(') (room : Nat) :
    scanTerm room input = scanComparison input := by
  rw [← scanComparison_skipBlanks, hi]
  unfold scanTerm
  rw [hi]
  split
  · rename_i he
    cases he
  · rename_i he
    cases he
    exact absurd rfl hc
  · rfl

theorem scanTerm_of_open (hi : skipBlanks input = '(' :: inside) (room : Nat) :
    scanTerm (room + 1) input = scanEnclosed (scanTerm room) inside := by
  rw [scanTerm, hi]
  rfl

theorem scanTerm_no_room (hi : skipBlanks input = '(' :: inside) :
    scanTerm 0 input = .error ⟨.nestedTooDeeply, '(' :: inside⟩ := by
  rw [scanTerm, hi]
  rfl

theorem IsComparison.scan (h : IsComparison text rule) (hr : Stops isNumberChar rest) :
    scanComparison (text ++ rest) = .ok (⟨rule, rule.depth⟩, rest) := by
  cases h with
  | @intro blanks name blanks' blanks'' literal value c hb hn hb' hs hb'' hl =>
    have hne : blanks' ++ c.chars ≠ [] := fun he => c.chars_ne_nil (List.append_eq_nil_iff.1 he).2
    have hword : Stops isNameChar (blanks' ++ c.chars ++ (blanks'' ++ (literal ++ rest))) :=
      hs.prolong hne
    have hlexeme : Stops (· == '=') (blanks'' ++ (literal ++ rest)) :=
      hb''.stops (fun _ => not_equals_of_isBlank) hl.stops_equals
    rw [List.append_assoc] at hword
    simp only [List.append_assoc, scanComparison, scanName_append hb hn hword,
      scanComparator_append hb' hlexeme, scanLiteral_append hb'' hl hr]
    rfl

theorem IsComparison.scanTerm (h : IsComparison text rule) (hr : Stops isNumberChar rest)
    (room : Nat) : scanTerm room (text ++ rest) = .ok (⟨rule, rule.depth⟩, rest) := by
  obtain ⟨blanks, c, tail, hb, ht, hc⟩ := h.head
  have hskip : skipBlanks (text ++ rest) = c :: (tail ++ rest) := by
    rw [ht, List.append_assoc]
    exact skipBlanks_append hb (not_isBlank_of_isNameChar hc)
  have hopen : c ≠ '(' := by
    intro he
    rw [he] at hc
    revert hc
    decide
  rw [scanTerm_of_name hskip hopen]
  exact h.scan hr

theorem EndsWithin.of_fits (hf : fits) : EndsWithin fits result result :=
  ⟨fun _ => rfl, fun hn => absurd hf hn⟩

theorem EndsWithin.of_deep (hf : ¬ fits) :
    EndsWithin fits result (.error ⟨.nestedTooDeeply, unread⟩) :=
  ⟨fun h => absurd h hf, fun _ => ⟨unread, rfl⟩⟩

theorem fits_operator : Fits room (.operator c l r) (max m n) ↔
    Fits room l m ∧ Fits room r n ∧ max l.depth r.depth + 1 ≤ maxDepth := by
  simp only [Fits, Rule.depth]
  omega

/-- The scan of an expression hands its rule on to the scan of what may follow in the chain. -/
def ExpressionScans (text : List Char) (rule : Rule) (nesting : Nat) : Prop :=
  ∀ room rest, Stops isNumberChar rest → EndsWithin (Fits room rule nesting)
    (scanChain (scanTerm room) ⟨rule, rule.depth⟩ rest)
    (scanExpression (scanTerm room) (text ++ rest))

def TermScans (text : List Char) (rule : Rule) (nesting : Nat) : Prop :=
  ∀ room rest, Stops isNumberChar rest → EndsWithin (Fits room rule nesting)
    (.ok (⟨rule, rule.depth⟩, rest)) (scanTerm room (text ++ rest))

theorem TermScans.expression (h : TermScans text rule nesting) :
    ExpressionScans text rule nesting := by
  intro room rest hs
  by_cases hf : Fits room rule nesting
  · rw [scanExpression, (h room rest hs).1 hf]
    exact .of_fits hf
  · obtain ⟨unread, he⟩ := (h room rest hs).2 hf
    rw [scanExpression, he]
    exact .of_deep hf

theorem scanChain_of_none (hc : scanComparator input = none) :
    scanChain term left input = .ok (left, input) := by
  rw [scanChain, hc]

theorem scanChain_of_fault (hc : scanComparator input = some (c, rest))
    (ht : term rest = .error fault) : scanChain term left input = .error fault := by
  rw [scanChain, hc]
  simp only [ht]

theorem scanChain_of_deep (hc : scanComparator input = some (c, rest))
    (ht : term rest = .ok (right, unread)) (hd : maxDepth < max left.depth right.depth + 1) :
    scanChain term left input = .error ⟨.nestedTooDeeply, unread⟩ := by
  rw [scanChain, hc]
  simp only [ht]
  exact if_pos hd

theorem scanChain_join (hc : scanComparator input = some (c, rest))
    (ht : term rest = .ok (right, unread)) (hd : max left.depth right.depth + 1 ≤ maxDepth) :
    scanChain term left input = scanChain term
      ⟨.operator c left.rule right.rule, max left.depth right.depth + 1⟩ unread := by
  rw [scanChain, hc]
  simp only [ht]
  exact if_neg (Nat.not_lt_of_le hd)

theorem scanEnclosed_of_close (he : scanExpression term input = .ok (subtree, after))
    (hs : skipBlanks after = ')' :: rest) : scanEnclosed term input = .ok (subtree, rest) := by
  simp only [scanEnclosed, he, hs]

theorem scanEnclosed_of_missing (he : scanExpression term input = .ok (subtree, after))
    (hn : ∀ rest, skipBlanks after ≠ ')' :: rest) :
    scanEnclosed term input = .error ⟨.missingParenthesis, skipBlanks after⟩ := by
  simp only [scanEnclosed, he]

theorem stops_connective (hb : IsBlanks blanks) (c : Comparator) :
    Stops isNumberChar (blanks ++ (c.chars ++ rest)) :=
  hb.stops (fun _ => not_isNumberChar_of_isBlank)
    (c.stops_chars (by intro c; cases c <;> exact rfl))

theorem ExpressionScans.chain (hl : ExpressionScans left l m) (hb : IsBlanks blanks)
    (c : Comparator) (hright : IsTerm right r n) (hr : TermScans right r n) :
    ExpressionScans (left ++ (blanks ++ (c.chars ++ right))) (.operator c l r) (max m n) := by
  intro room rest hs
  have hleft := hl room (blanks ++ (c.chars ++ (right ++ rest))) (stops_connective hb c)
  have hc : scanComparator (blanks ++ (c.chars ++ (right ++ rest))) = some (c, right ++ rest) :=
    scanComparator_append hb hright.stops_equals
  simp only [List.append_assoc]
  by_cases hfl : Fits room l m
  · rw [hleft.1 hfl]
    by_cases hfr : Fits room r n
    · have ht := (hr room rest hs).1 hfr
      by_cases hd : max l.depth r.depth + 1 ≤ maxDepth
      · rw [scanChain_join hc ht hd]
        exact .of_fits (fits_operator.2 ⟨hfl, hfr, hd⟩)
      · rw [scanChain_of_deep hc ht (Nat.lt_of_not_le hd)]
        exact .of_deep fun hf => hd (fits_operator.1 hf).2.2
    · obtain ⟨unread, he⟩ := (hr room rest hs).2 hfr
      rw [scanChain_of_fault hc he]
      exact .of_deep fun hf => hfr (fits_operator.1 hf).2.1
  · obtain ⟨unread, he⟩ := hleft.2 hfl
    rw [he]
    exact .of_deep fun hf => hfl (fits_operator.1 hf).1

theorem IsComparison.termScans (h : IsComparison text rule) : TermScans text rule 0 := by
  intro room rest hs
  rw [h.scanTerm hs]
  exact .of_fits ⟨by rw [h.depth]; decide, Nat.zero_le _⟩

theorem scanComparator_close (hb : IsBlanks blanks) :
    scanComparator (blanks ++ ')' :: rest) = none := by
  have hs : Stops isBlank (')' :: rest) := rfl
  apply scanComparator_eq_none hb hs
  rintro c ⟨tail, ht⟩
  cases c <;> cases ht

theorem ExpressionScans.enclosed (h : ExpressionScans text rule nesting)
    (hb : IsBlanks blanks) (hb' : IsBlanks blanks') :
    TermScans (blanks ++ '(' :: (text ++ (blanks' ++ [')']))) rule (nesting + 1) := by
  intro room rest hs
  have hskip : skipBlanks (blanks ++ '(' :: (text ++ (blanks' ++ [')'])) ++ rest) =
      '(' :: (text ++ (blanks' ++ ')' :: rest)) := by
    simp only [List.append_assoc, List.cons_append, List.nil_append]
    exact skipBlanks_append hb rfl
  cases room with
  | zero =>
    rw [scanTerm_no_room hskip]
    exact .of_deep fun hf => Nat.not_succ_le_zero _ hf.2
  | succ room =>
    have hinside := h room (blanks' ++ ')' :: rest)
      (hb'.stops (fun _ => not_isNumberChar_of_isBlank) rfl)
    have hclose : skipBlanks (blanks' ++ ')' :: rest) = ')' :: rest := skipBlanks_append hb' rfl
    rw [scanTerm_of_open hskip, scanEnclosed]
    by_cases hf : Fits room rule nesting
    · rw [hinside.1 hf, scanChain_of_none (scanComparator_close hb')]
      simp only [hclose]
      exact .of_fits ⟨hf.1, Nat.succ_le_succ hf.2⟩
    · obtain ⟨unread, he⟩ := hinside.2 hf
      rw [he]
      exact .of_deep fun hn => hf ⟨hn.1, Nat.le_of_succ_le_succ hn.2⟩

mutual

theorem IsExpression.scans {text : List Char} {rule : Rule} :
    IsExpression text rule nesting → ExpressionScans text rule nesting
  | .term h => h.scans.expression
  | .chain c hl hb hr => hl.scans.chain hb c hr hr.scans

theorem IsTerm.scans {text : List Char} {rule : Rule} :
    IsTerm text rule nesting → TermScans text rule nesting
  | .comparison h => h.termScans
  | .enclosed hb h hb' => h.scans.enclosed hb hb'

end

theorem IsRuleText.scanRule (h : IsRuleText text rule nesting) :
    EndsWithin (Fits maxDepth rule nesting) (.ok rule) (scanRule text) := by
  obtain ⟨expression, blanks, rfl, he, hb⟩ := h
  have hs : Stops isNumberChar (blanks ++ []) :=
    hb.stops (fun _ => not_isNumberChar_of_isBlank) trivial
  have hscan := he.scans maxDepth (blanks ++ []) hs
  rw [List.append_nil] at hscan
  unfold Eligibility.scanRule
  by_cases hf : Fits maxDepth rule nesting
  · rw [hscan.1 hf, scanChain_of_none (scanComparator_blanks hb)]
    simp only [skipBlanks_blanks hb]
    exact .of_fits hf
  · obtain ⟨unread, hu⟩ := hscan.2 hf
    rw [hu]
    exact .of_deep hf

/-- A text of the grammar is read as its rule, unless one of the limits is passed. -/
theorem IsRuleText.parse {text : String} (h : IsRuleText text.toList rule nesting) :
    (Fits maxDepth rule nesting → Rule.parse text = .ok rule) ∧
      (¬ Fits maxDepth rule nesting →
        ∃ position, Rule.parse text = .error ⟨position, .nestedTooDeeply⟩) := by
  have hs := h.scanRule
  constructor
  · intro hf
    rw [Rule.parse, hs.1 hf]
    rfl
  · intro hf
    obtain ⟨unread, hu⟩ := hs.2 hf
    rw [Rule.parse, hu]
    exact ⟨_, rfl⟩

/-- What a scan has read of the input so far is a text of its rule within the limits, and the
levels of the rule are counted rightly. -/
def Reads (texts : List Char → Rule → Nat → Prop) (room : Nat) (input : List Char)
    (subtree : Subtree) (rest : List Char) : Prop :=
  ∃ text nesting, input = text ++ rest ∧ texts text subtree.rule nesting ∧
    Fits room subtree.rule nesting ∧ subtree.depth = subtree.rule.depth

def TermReads (term : List Char → Scan Subtree) (room : Nat) : Prop :=
  ∀ {input subtree rest}, term input = .ok (subtree, rest) → Reads IsTerm room input subtree rest

theorem scanComparison_reads (h : scanComparison input = .ok (subtree, rest)) (room : Nat) :
    Reads IsTerm room input subtree rest := by
  unfold scanComparison at h
  split at h
  · cases h
  · rename_i name afterName hname
    split at h
    · cases h
    · rename_i c afterComparator hcomparator
      split at h
      · cases h
      · rename_i hliteral
        cases h
        obtain ⟨blanks, hb, hi, hn, hs⟩ := scanName_eq_ok hname
        obtain ⟨blanks', hb', hi'⟩ := scanComparator_eq_some hcomparator
        obtain ⟨blanks'', literal, hb'', hi'', hl⟩ := scanLiteral_eq_ok hliteral
        rw [hi', ← List.append_assoc] at hs
        have ht := IsComparison.intro c hb hn hb' hs.of_append hb'' hl
        refine ⟨_, 0, ?_, .comparison ht, ⟨?_, Nat.zero_le _⟩, rfl⟩
        · rw [hi, hi', hi'']
          simp only [List.append_assoc]
        · rw [ht.depth]
          decide

theorem Reads.chain (hl : Reads IsExpression room input left unread)
    (hc : scanComparator unread = some (c, after)) (hr : Reads IsTerm room after right rest)
    (hd : max left.depth right.depth + 1 ≤ maxDepth) :
    Reads IsExpression room input
      ⟨.operator c left.rule right.rule, max left.depth right.depth + 1⟩ rest := by
  obtain ⟨text, m, hi, ht, hf, hdepth⟩ := hl
  obtain ⟨text', n, hi', ht', hf', hdepth'⟩ := hr
  obtain ⟨blanks, hb, hu⟩ := scanComparator_eq_some hc
  rw [hdepth, hdepth'] at hd
  refine ⟨_, _, ?_, .chain c ht hb ht', fits_operator.2 ⟨hf, hf', hd⟩, ?_⟩
  · rw [hi, hu, hi']
    simp only [List.append_assoc]
  · simp only [Rule.depth, hdepth, hdepth']

theorem scanChain_reads (hterm : TermReads term room)
    (hl : Reads IsExpression room whole left input)
    (h : scanChain term left input = .ok (subtree, rest)) :
    Reads IsExpression room whole subtree rest := by
  fun_induction scanChain term left input with
  | case1 =>
    cases h
    exact hl
  | case2 => cases h
  | case3 => cases h
  | case4 left input c after hc right unread ht hd ih =>
    exact ih (hl.chain hc (hterm ht) (Nat.le_of_not_gt hd)) h

theorem scanExpression_reads (hterm : TermReads term room)
    (h : scanExpression term input = .ok (subtree, rest)) :
    Reads IsExpression room input subtree rest := by
  unfold scanExpression at h
  split at h
  · cases h
  · rename_i ht
    obtain ⟨text, nesting, hi, ht, hf, hd⟩ := hterm ht
    exact scanChain_reads hterm ⟨text, nesting, hi, .term ht, hf, hd⟩ h

theorem scanEnclosed_reads (hterm : TermReads term room)
    (hi : skipBlanks input = '(' :: inside) (h : scanEnclosed term inside = .ok (subtree, rest)) :
    Reads IsTerm (room + 1) input subtree rest := by
  obtain ⟨blanks, hb, hinput⟩ := exists_skipBlanks input
  unfold scanEnclosed at h
  split at h
  · cases h
  · rename_i after he
    obtain ⟨blanks', hb', hafter⟩ := exists_skipBlanks after
    obtain ⟨text, nesting, hinside, ht, hf, hd⟩ := scanExpression_reads hterm he
    split at h
    · rename_i hclose
      cases h
      refine ⟨_, _, ?_, .enclosed hb ht hb', ⟨hf.1, Nat.succ_le_succ hf.2⟩, hd⟩
      rw [hinput, hi, hinside, hafter, hclose]
      simp only [List.append_assoc, List.cons_append, List.nil_append]
    · cases h

theorem scanTerm_reads {input rest : List Char} (room : Nat)
    (h : scanTerm room input = .ok (subtree, rest)) : Reads IsTerm room input subtree rest := by
  cases hi : skipBlanks input with
  | nil =>
    rw [scanTerm, hi] at h
    cases h
  | cons c tail =>
    by_cases hc : c = '('
    · rw [hc] at hi
      cases room with
      | zero =>
        rw [scanTerm_no_room hi] at h
        cases h
      | succ room =>
        rw [scanTerm_of_open hi] at h
        exact scanEnclosed_reads (scanTerm_reads room) hi h
    · rw [scanTerm_of_name hi hc] at h
      exact scanComparison_reads h room

theorem scanRule_reads (h : scanRule input = .ok rule) : Derives input rule := by
  unfold scanRule at h
  split at h
  · cases h
  · rename_i subtree rest he
    obtain ⟨text, nesting, hi, ht, hf, hd⟩ := scanExpression_reads (scanTerm_reads maxDepth) he
    obtain ⟨blanks, hb, hr⟩ := exists_skipBlanks rest
    split at h
    · rename_i hend
      cases h
      rw [hend, List.append_nil] at hr
      exact ⟨hf.1, nesting, hf.2, text, blanks, by rw [hi, hr], ht, hb⟩
    · cases h

theorem Rule.parse_eq_ok_scan {text : String} :
    Rule.parse text = .ok rule ↔ scanRule text.toList = .ok rule := by
  unfold Rule.parse
  cases scanRule text.toList with
  | error fault =>
    constructor
    · rintro ⟨⟩
    · rintro ⟨⟩
  | ok found =>
    constructor
    · rintro ⟨⟩
      rfl
    · rintro ⟨⟩
      rfl

theorem Rule.derives_of_parse {text : String} (h : Rule.parse text = .ok rule) :
    Derives text.toList rule :=
  scanRule_reads (parse_eq_ok_scan.1 h)

theorem Rule.parse_of_fault {text : String} (h : scanRule text.toList = .error ⟨reason, rest⟩) :
    Rule.parse text = .error ⟨utf8Length text.toList - utf8Length rest, reason⟩ := by
  rw [Rule.parse, h]
  rfl

theorem Rule.exists_fault {text : String} (h : Rule.parse text = .error ⟨position, reason⟩) :
    ∃ rest, scanRule text.toList = .error ⟨reason, rest⟩ ∧
      position = utf8Length text.toList - utf8Length rest := by
  unfold Rule.parse at h
  cases hs : scanRule text.toList with
  | error fault =>
    rw [hs] at h
    cases h
    exact ⟨fault.rest, rfl, rfl⟩
  | ok rule =>
    rw [hs] at h
    cases h

theorem Rule.parse_of_derives {text : String} (h : Derives text.toList rule) :
    Rule.parse text = .ok rule := by
  obtain ⟨hd, nesting, hn, ht⟩ := h
  exact ht.parse.1 ⟨hd, hn⟩

end Eligibility
