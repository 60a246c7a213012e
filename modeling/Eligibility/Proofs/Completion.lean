import Eligibility.Proofs.FaultSites

namespace Eligibility
set_option autoImplicit true

/-- The characters that the lexeme of a comparator can start with. -/
def isLexemeStart (c : Char) : Bool :=
  ['>', '<', '=', 'A', 'O'].contains c

/-- The run of digits that the text ends with. -/
def digitsAtEnd (text : List Char) : List Char :=
  (text.reverse.takeWhile Char.isDigit).reverse

/-- The text has too few parentheses and lexemes to pass a limit, and a number that it ends with is
not out of range. -/
structure IsShallow (room : Nat) (text : List Char) (reason : ParseError.Reason) : Prop where
  parentheses : text.count '(' < room
  lexemes : text.countP isLexemeStart < maxDepth
  number : reason = .fractionalNumber → ∀ digits, digits <:+ text →
    (∀ d ∈ digits, d.isDigit = true) → digitsValue digits < UInt64.size

/-- The text begins one of the given texts, and little is missing from it. -/
def Begins (texts : List Char → Rule → Nat → Prop) (text : List Char) : Prop :=
  ∃ completion rule nesting, texts (text ++ completion) rule nesting ∧ '(' ∉ completion ∧
    completion.countP isLexemeStart ≤ 1

/-- What stands before the fault begins one of the given texts. -/
def BeginsBefore (texts : List Char → Rule → Nat → Prop) (room : Nat) (input : List Char)
    (fault : Fault) : Prop :=
  ∃ read, input = read ++ fault.rest ∧ (IsShallow room read fault.reason → Begins texts read)

variable {texts texts' : List Char → Rule → Nat → Prop} {room : Nat} {fault : Fault}
variable {text front read rest input : List Char} {rule : Rule} {term : List Char → Scan Subtree}

theorem IsShallow.of_append (h : IsShallow room (front ++ text) reason) :
    IsShallow room text reason where
  parentheses := by
    have hp := h.parentheses
    rw [List.count_append] at hp
    omega
  lexemes := by
    have hl := h.lexemes
    rw [List.countP_append] at hl
    omega
  number hr digits hs := h.number hr digits (hs.trans (List.suffix_append _ _))

theorem IsShallow.inside (h : IsShallow (room + 1) ('(' :: text) reason) :
    IsShallow room text reason := by
  have hsplit : IsShallow (room + 1) (['('] ++ text) reason := h
  have hp := h.parentheses
  rw [List.count_cons_self] at hp
  exact ⟨Nat.lt_of_succ_lt_succ hp, hsplit.of_append.lexemes, hsplit.of_append.number⟩

theorem Begins.map (h : Begins texts text)
    (ht : ∀ {completed rule nesting}, texts completed rule nesting →
      ∃ rule' nesting', texts' (front ++ completed) rule' nesting') :
    Begins texts' (front ++ text) := by
  obtain ⟨completion, rule, nesting, htext, ho, hl⟩ := h
  obtain ⟨rule', nesting', htext'⟩ := ht htext
  exact ⟨completion, rule', nesting', by rwa [List.append_assoc], ho, hl⟩

theorem BeginsBefore.extend (h : BeginsBefore texts room rest fault) (front : List Char)
    (ht : ∀ {completed rule nesting}, texts completed rule nesting →
      ∃ rule' nesting', texts' (front ++ completed) rule' nesting') :
    BeginsBefore texts' room (front ++ rest) fault := by
  obtain ⟨read, rfl, hb⟩ := h
  exact ⟨front ++ read, (List.append_assoc _ _ _).symm, fun hs => (hb hs.of_append).map ht⟩

theorem IsComparison.begins {whole : List Char} (h : IsComparison whole rule)
    (completion : List Char) (he : whole = text ++ completion) (ho : '(' ∉ completion)
    (hl : completion.countP isLexemeStart ≤ 1) : Begins IsTerm text :=
  ⟨completion, rule, 0, .comparison (he ▸ h), ho, hl⟩

theorem isLiteral_one : IsLiteral ['1'] (.number 1) :=
  .number nofun (List.all_eq_true.1 rfl) (by decide)

theorem stops_equal : Stops isNameChar Comparator.equal.chars :=
  (by decide : isNameChar '=' = false)

theorem begins_name (hb : IsBlanks blanks) : Begins IsTerm blanks := by
  have hn : IsName ['a'] := by decide
  have hc := IsComparison.intro .equal hb hn IsBlanks.nil stops_equal IsBlanks.nil isLiteral_one
  exact hc.begins ['a', '=', '1'] rfl (by decide) (by decide)

theorem begins_comparator (hb : IsBlanks blanks) (hn : IsName name) (hb' : IsBlanks blanks') :
    Begins IsTerm (blanks ++ (name ++ blanks')) := by
  have hs : Stops isNameChar (blanks' ++ Comparator.equal.chars) :=
    hb'.stops (fun _ => not_isNameChar_of_isBlank) stops_equal
  have hc := IsComparison.intro .equal hb hn hb' hs IsBlanks.nil isLiteral_one
  apply hc.begins ['=', '1'] ?_ (by decide) (by decide)
  simp only [List.append_assoc]
  rfl

theorem begins_literal (hb : IsBlanks blanks) (hn : IsName name) (hb' : IsBlanks blanks')
    (c : Comparator) (hs : Stops isNameChar (blanks' ++ c.chars)) (hb'' : IsBlanks blanks'')
    (hd : ∀ d ∈ digits, d.isDigit = true)
    (hv : digits ≠ [] → digitsValue digits < UInt64.size) :
    Begins IsTerm (blanks ++ (name ++ (blanks' ++ (c.chars ++ (blanks'' ++ digits))))) := by
  by_cases hne : digits = []
  · have hc := IsComparison.intro c hb hn hb' hs hb'' isLiteral_one
    apply hc.begins ['1'] ?_ (by decide) (by decide)
    simp only [hne, List.append_nil, List.append_assoc]
  · have hc := IsComparison.intro c hb hn hb' hs hb'' (.number hne hd (hv hne))
    exact hc.begins [] (List.append_nil _).symm (by decide) (by decide)

/-- Nothing has been read before the fault but digits that a fraction follows. -/
def StopsInNumber (input : List Char) (fault : Fault) : Prop :=
  ∃ digits, input = digits ++ fault.rest ∧ (∀ d ∈ digits, d.isDigit = true) ∧
    (digits ≠ [] → fault.reason = .fractionalNumber)

theorem StopsInNumber.here : StopsInNumber input ⟨reason, input⟩ :=
  ⟨[], rfl, List.forall_mem_nil _, fun hne => absurd rfl hne⟩

theorem scanNumber_stops (h : scanNumber input = .error fault) : StopsInNumber input fault := by
  simp only [scanNumber] at h
  split at h
  case h_1 rest hdot =>
    cases h
    exact ⟨_, (scanDigits_append input).symm, fun _ => mem_takeWhile, fun _ => rfl⟩
  case h_2 =>
    split at h
    case isTrue => cases h
    case isFalse =>
      cases h
      exact .here

theorem scanLiteral_stops (h : scanLiteral input = .error fault) :
    StopsInNumber (skipBlanks input) fault := by
  unfold scanLiteral at h
  split at h
  case h_1 hn =>
    cases h
    rw [hn]
    exact .here
  case h_2 inner hq =>
    rw [hq]
    split at h
    case h_1 =>
      cases h
      exact .here
    case h_2 => cases h
  case h_3 c tail _ hc =>
    rw [hc]
    split at h
    case isTrue => exact scanNumber_stops h
    case isFalse =>
      split at h
      all_goals
        cases h
        exact .here

theorem scanComparison_begins (h : scanComparison input = .error fault) (room : Nat) :
    BeginsBefore IsTerm room input fault := by
  unfold scanComparison at h
  split at h
  case h_1 hname =>
    cases h
    obtain ⟨blanks, hb, hi⟩ := exists_skipBlanks input
    simp only [scanName] at hname
    split at hname
    case h_1 =>
      cases hname
      exact ⟨blanks, hi, fun _ => begins_name hb⟩
    case h_2 => cases hname
  case h_2 name afterName hname =>
    obtain ⟨blanks, hb, rfl, hn, hs⟩ := scanName_eq_ok hname
    split at h
    case h_1 =>
      cases h
      obtain ⟨blanks', hb', hi⟩ := exists_skipBlanks afterName
      refine ⟨blanks ++ (name ++ blanks'), ?_, fun _ => begins_comparator hb hn hb'⟩
      simp only [List.append_assoc, ← hi]
    case h_2 c afterComparator hc =>
      obtain ⟨blanks', hb', rfl⟩ := scanComparator_eq_some hc
      rw [← List.append_assoc] at hs
      split at h
      case h_1 hliteral =>
        cases h
        obtain ⟨blanks'', hb'', hi⟩ := exists_skipBlanks afterComparator
        obtain ⟨digits, hu, hd, hr⟩ := scanLiteral_stops hliteral
        refine ⟨blanks ++ (name ++ (blanks' ++ (c.chars ++ (blanks'' ++ digits)))), ?_, ?_⟩
        · simp only [List.append_assoc, ← hu, ← hi]
        · intro hshallow
          apply begins_literal hb hn hb' c hs.of_append hb'' hd
          intro hne
          refine hshallow.number (hr hne) digits ?_ hd
          exact ⟨blanks ++ (name ++ (blanks' ++ (c.chars ++ blanks''))), by
            simp only [List.append_assoc]⟩
      case h_2 => cases h

/-- Neither limit is passed by more than the text has lexemes and parentheses. -/
def IsBounded (text : List Char) (rule : Rule) (nesting : Nat) : Prop :=
  rule.depth ≤ text.countP isLexemeStart ∧ nesting ≤ text.count '('

theorem Comparator.one_le_countP (c : Comparator) : 1 ≤ c.chars.countP isLexemeStart := by
  cases c <;> decide

theorem IsComparison.isBounded (h : IsComparison text rule) : IsBounded text rule 0 := by
  refine ⟨?_, Nat.zero_le _⟩
  rw [h.depth]
  obtain ⟨c⟩ := h
  have hc := c.one_le_countP
  simp only [List.countP_append]
  omega

theorem IsBounded.chain (hl : IsBounded left l m) (c : Comparator) (hr : IsBounded right r n) :
    IsBounded (left ++ (blanks ++ (c.chars ++ right))) (.operator c l r) (max m n) := by
  have hc := c.one_le_countP
  obtain ⟨hdepth, hnesting⟩ := hl
  obtain ⟨hdepth', hnesting'⟩ := hr
  simp only [IsBounded, Rule.depth, List.countP_append, List.count_append]
  omega

theorem IsBounded.enclosed (h : IsBounded text rule nesting) :
    IsBounded (blanks ++ '(' :: (text ++ (blanks' ++ [')']))) rule (nesting + 1) := by
  obtain ⟨hdepth, hnesting⟩ := h
  constructor
  · have hinside : text.Sublist (blanks ++ '(' :: (text ++ (blanks' ++ [')']))) :=
      List.sublist_append_of_sublist_right ((List.sublist_append_left text _).cons _)
    exact Nat.le_trans hdepth hinside.countP_le
  · rw [List.count_append, List.count_cons_self, List.count_append]
    omega

mutual

theorem IsExpression.isBounded {text : List Char} {rule : Rule} :
    IsExpression text rule nesting → IsBounded text rule nesting
  | .term h => h.isBounded
  | .chain c hl _ hr => hl.isBounded.chain c hr.isBounded

theorem IsTerm.isBounded {text : List Char} {rule : Rule} :
    IsTerm text rule nesting → IsBounded text rule nesting
  | .comparison h => h.isBounded
  | .enclosed _ h _ => h.isBounded.enclosed

end

/-- A reader of terms before whose faults a term has begun. -/
def TermBegins (term : List Char → Scan Subtree) (room : Nat) : Prop :=
  ∀ {input fault}, term input = .error fault → BeginsBefore IsTerm room input fault

theorem scanChain_begins (hread : TermReads term room) (ht : TermBegins term room)
    (hl : Reads IsExpression room whole left input)
    (h : scanChain term left input = .error fault) :
    BeginsBefore IsExpression room whole fault := by
  fun_induction scanChain term left input with
  | case1 => cases h
  | case2 left input c after hc reported hf =>
    cases h
    obtain ⟨text, m, rfl, hleft, -, -⟩ := hl
    obtain ⟨blanks, hb, rfl⟩ := scanComparator_eq_some hc
    rw [← List.append_assoc blanks, ← List.append_assoc text]
    apply (ht hf).extend (text ++ (blanks ++ c.chars))
    intro completed rule nesting hright
    have hchain := IsExpression.chain c hleft hb hright
    rw [← List.append_assoc blanks, ← List.append_assoc text] at hchain
    exact ⟨_, _, hchain⟩
  | case3 left input c after hc right unread hr hd =>
    cases h
    obtain ⟨text, m, rfl, hleft, -, hdepth⟩ := hl
    obtain ⟨blanks, hb, rfl⟩ := scanComparator_eq_some hc
    obtain ⟨text', n, rfl, hright, -, hdepth'⟩ := hread hr
    refine ⟨text ++ (blanks ++ (c.chars ++ text')), ?_, fun hs => ?_⟩
    · simp only [List.append_assoc]
    -- A tree that is too deep has more levels than a shallow text has lexemes.
    · have hbound := (IsExpression.chain c hleft hb hright).isBounded.1
      rw [Rule.depth, ← hdepth, ← hdepth'] at hbound
      exact absurd (Nat.lt_of_lt_of_le hd hbound) (Nat.lt_asymm hs.lexemes)
  | case4 left input c after hc right unread hr hd ih =>
    exact ih (hl.chain hc (hread hr) (Nat.le_of_not_gt hd)) h

theorem scanExpression_begins (hread : TermReads term room) (ht : TermBegins term room)
    (h : scanExpression term input = .error fault) :
    BeginsBefore IsExpression room input fault := by
  unfold scanExpression at h
  split at h
  case h_1 hf =>
    cases h
    exact (ht hf).extend [] fun hterm => ⟨_, _, .term hterm⟩
  case h_2 hr =>
    obtain ⟨text, nesting, rfl, hterm, hf, hd⟩ := hread hr
    exact scanChain_begins hread ht ⟨text, nesting, rfl, .term hterm, hf, hd⟩ h

theorem scanEnclosed_begins (hread : TermReads term room) (ht : TermBegins term room)
    (hi : skipBlanks input = '(' :: inside) (h : scanEnclosed term inside = .error fault) :
    BeginsBefore IsTerm (room + 1) input fault := by
  obtain ⟨blanks, hb, hinput⟩ := exists_skipBlanks input
  rw [hi] at hinput
  unfold scanEnclosed at h
  split at h
  case h_1 he =>
    cases h
    obtain ⟨read, rfl, hbegins⟩ := scanExpression_begins hread ht he
    refine ⟨blanks ++ '(' :: read, by simp [hinput], fun hs => ?_⟩
    obtain ⟨completion, rule, nesting, hc, ho, hl⟩ := hbegins hs.of_append.inside
    refine ⟨completion ++ [')'], rule, nesting + 1, ?_, ?_, ?_⟩
    · have hterm := IsTerm.enclosed hb hc IsBlanks.nil
      simpa only [List.append_assoc, List.cons_append, List.nil_append] using hterm
    · simpa using ho
    · rw [List.countP_append]
      exact hl
  case h_2 after he =>
    obtain ⟨text, nesting, rfl, hc, -, -⟩ := scanExpression_reads hread he
    obtain ⟨blanks', hb', hafter⟩ := exists_skipBlanks after
    split at h
    case h_1 => cases h
    case h_2 =>
      cases h
      refine ⟨blanks ++ '(' :: (text ++ blanks'), ?_, fun _ => ?_⟩
      · rw [hinput, List.append_assoc, List.cons_append, List.append_assoc, ← hafter]
      · have hterm := IsTerm.enclosed hb hc hb'
        rw [← List.append_assoc text, ← List.cons_append, ← List.append_assoc blanks] at hterm
        exact ⟨[')'], _, nesting + 1, hterm, by decide, by decide⟩

theorem scanTerm_begins (room : Nat) : TermBegins (scanTerm room) room := by
  intro input fault h
  obtain ⟨blanks, hb, hinput⟩ := exists_skipBlanks input
  cases hi : skipBlanks input with
  | nil =>
    rw [scanTerm, hi] at h
    cases h
    rw [hi] at hinput
    exact ⟨blanks, hinput, fun _ => begins_name hb⟩
  | cons c tail =>
    by_cases hc : c = '('
    · rw [hc] at hi
      cases room with
      | zero =>
        -- All the parentheses that a shallow text may have are open already.
        rw [scanTerm_no_room hi] at h
        cases h
        rw [hi] at hinput
        exact ⟨blanks, hinput, fun hs => absurd hs.parentheses (Nat.not_lt_zero _)⟩
      | succ room =>
        rw [scanTerm_of_open hi] at h
        exact scanEnclosed_begins (scanTerm_reads room) (scanTerm_begins room) hi h
    · rw [scanTerm_of_name hi hc] at h
      exact scanComparison_begins h room

theorem scanRule_begins (h : scanRule input = .error fault) :
    BeginsBefore IsRuleText maxDepth input fault := by
  unfold scanRule at h
  split at h
  case h_1 he =>
    cases h
    have hbegins := scanExpression_begins (scanTerm_reads _) (scanTerm_begins _) he
    exact hbegins.extend [] fun hc => ⟨_, _, _, [], (List.append_nil _).symm, hc, .nil⟩
  case h_2 subtree rest he =>
    obtain ⟨text, nesting, rfl, hc, -, -⟩ := scanExpression_reads (scanTerm_reads _) he
    obtain ⟨blanks, hb, hi⟩ := exists_skipBlanks rest
    split at h
    case h_1 => cases h
    case h_2 c tail hs =>
      cases h
      refine ⟨text ++ blanks, by rw [List.append_assoc, ← hs, ← hi], fun _ => ?_⟩
      exact ⟨[], _, nesting, ⟨text, blanks, List.append_nil _, hc, hb⟩, by decide, by decide⟩

theorem IsRuleText.isBounded (h : IsRuleText text rule nesting) : IsBounded text rule nesting := by
  obtain ⟨expression, blanks, rfl, he, -⟩ := h
  obtain ⟨hdepth, hnesting⟩ := he.isBounded
  simp only [IsBounded, List.countP_append, List.count_append]
  omega

/-- What is missing from a text that is far enough from the limits does not pass them. -/
theorem Begins.derives (h : Begins IsRuleText text) (ho : text.count '(' ≤ maxDepth)
    (hl : text.countP isLexemeStart < maxDepth) :
    ∃ completion rule, Derives (text ++ completion) rule := by
  obtain ⟨completion, rule, nesting, ht, hc, hlexemes⟩ := h
  obtain ⟨hdepth, hnesting⟩ := ht.isBounded
  rw [List.countP_append] at hdepth
  rw [List.count_append, List.count_eq_zero.2 hc] at hnesting
  exact ⟨completion, rule, by omega, nesting, by omega, ht⟩

theorem digitsValue_le_of_suffix (h : digits <:+ run) : digitsValue digits ≤ digitsValue run := by
  obtain ⟨front, rfl⟩ := h
  have hv : Nat.ofDigitChars 10 digits (digitsValue front) =
      10 ^ digits.length * digitsValue front + digitsValue digits :=
    Nat.ofDigitChars_eq_ofDigitChars_zero
  rw [digitsValue, digitsValue, Nat.ofDigitChars_append, ← digitsValue, ← digitsValue, hv]
  exact Nat.le_add_left _ _

theorem suffix_digitsAtEnd (h : digits <:+ text) (hd : ∀ d ∈ digits, d.isDigit = true) :
    digits <:+ digitsAtEnd text := by
  have hr : ∀ d ∈ digits.reverse, d.isDigit = true := fun d hm => hd d (List.mem_reverse.1 hm)
  rw [digitsAtEnd, ← List.reverse_prefix, List.reverse_reverse, prefix_takeWhile_iff hr]
  exact List.reverse_prefix.2 h

theorem eq_nil_of_utf8Length (h : utf8Length text = utf8Length text + utf8Length rest) :
    rest = [] := by
  have hr := length_le_utf8Length rest
  exact List.eq_nil_of_length_eq_zero (by omega)

/-- A byte offset cuts a text in one way only. -/
theorem append_inj_of_utf8Length {left right left' right' : List Char}
    (h : left ++ right = left' ++ right') (hl : utf8Length left = utf8Length left') :
    left = left' := by
  rcases List.append_eq_append_iff.1 h with ⟨middle, rfl, -⟩ | ⟨middle, rfl, -⟩
  · rw [utf8Length_append] at hl
    rw [eq_nil_of_utf8Length hl, List.append_nil]
  · rw [utf8Length_append] at hl
    rw [eq_nil_of_utf8Length hl.symm, List.append_nil]

/-- Up to the place of its error a text is the beginning of an accepted one, as long as it has too
few parentheses and lexemes to pass a limit and the number before a fraction fits 64 bits. -/
theorem Rule.parse_error_prompt {text : String} (h : parse text = .error ⟨position, reason⟩) :
    (∃ before rest : String, text = before ++ rest ∧ position = before.utf8ByteSize) ∧
      ∀ before rest : String, text = before ++ rest → position = before.utf8ByteSize →
        before.toList.count '(' ≤ 99 → before.toList.countP isLexemeStart ≤ 99 →
        (reason = .fractionalNumber → digitsValue (digitsAtEnd before.toList) < UInt64.size) →
        ∃ completion rule, parse (before ++ completion) = .ok rule := by
  obtain ⟨unread, hs, hposition⟩ := exists_fault h
  obtain ⟨read, hi, hbegins⟩ := scanRule_begins hs
  rw [hi, utf8Length_append, Nat.add_sub_cancel] at hposition
  constructor
  · refine ⟨String.ofList read, String.ofList unread, ?_, ?_⟩
    · rw [← String.ofList_append, ← hi, String.ofList_toList]
    · rw [hposition, utf8Length_eq_utf8ByteSize]
  · rintro before rest rfl hsize ho hl hn
    have hread : read = before.toList := by
      rw [String.toList_append] at hi
      apply append_inj_of_utf8Length hi.symm
      rw [← hposition, hsize, utf8Length_eq_utf8ByteSize, String.ofList_toList]
    rw [hread] at hbegins
    have hshallow : IsShallow maxDepth before.toList reason := by
      refine ⟨Nat.lt_succ_of_le ho, Nat.lt_succ_of_le hl, fun hr digits hs hd => ?_⟩
      exact Nat.lt_of_le_of_lt (digitsValue_le_of_suffix (suffix_digitsAtEnd hs hd)) (hn hr)
    obtain ⟨completion, rule, hd⟩ := (hbegins hshallow).derives (Nat.le_succ_of_le ho)
      (Nat.lt_succ_of_le hl)
    refine ⟨String.ofList completion, rule, Rule.parse_of_derives ?_⟩
    rwa [String.toList_append, String.toList_ofList]

/-- A connective asks for one more term or, behind a name, for a literal; the parentheses can all be
closed, and the digits before a fraction are a number. -/
theorem Rule.parse_error_prompt_connective :
    parse "x=1AND" = .error ⟨6, .missingTerm⟩ ∧
      (∃ completion rule, parse ("x=1AND" ++ completion) = .ok rule) ∧
      parse "((größe AND)" = .error ⟨13, .missingValue (some ')')⟩ ∧
      (∃ completion rule, parse ("((größe AND" ++ completion) = .ok rule) ∧
      parse "(a >= 007.5" = .error ⟨9, .fractionalNumber⟩ ∧
      ∃ completion rule, parse ("(a >= 007" ++ completion) = .ok rule := by
  have hterm : parse "x=1AND" = .error ⟨6, .missingTerm⟩ := by decide +kernel
  have hvalue : parse "((größe AND)" = .error ⟨13, .missingValue (some ')')⟩ := by
    decide +kernel
  have hfraction : parse "(a >= 007.5" = .error ⟨9, .fractionalNumber⟩ := by decide +kernel
  refine ⟨hterm, ?_, hvalue, ?_, hfraction, ?_⟩
  · exact (parse_error_prompt hterm).2 "x=1AND" "" (by decide) (by decide) (by decide) (by decide)
      nofun
  · exact (parse_error_prompt hvalue).2 "((größe AND" ")" (by decide) (by decide) (by decide)
      (by decide) nofun
  · exact (parse_error_prompt hfraction).2 "(a >= 007" ".5" (by decide) (by decide) (by decide)
      (by decide) (by decide)

end Eligibility
