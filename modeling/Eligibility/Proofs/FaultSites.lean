import Eligibility.Proofs.Recognition
import Mathlib.Data.List.Basic

namespace Eligibility
set_option autoImplicit true

/-- What can stand before a term: blanks, parentheses that are open there, and whole expressions,
each with the comparator that goes on from it. -/
inductive OpensTerm : List Char → Prop
  | start : OpensTerm []
  | blanks (h : OpensTerm before) (hb : IsBlanks blanks) : OpensTerm (before ++ blanks)
  | parenthesis (h : OpensTerm before) : OpensTerm (before ++ ['('])
  | comparator (c : Comparator) (h : OpensTerm before)
    (he : IsExpression expression rule nesting) (hb : IsBlanks blanks) :
    OpensTerm (before ++ expression ++ (blanks ++ c.chars))

/-- A whole expression and a connective behind it end these characters. -/
def FollowsConnective (before : List Char) : Prop :=
  ∃ outer expression rule nesting blanks, ∃ c : Comparator, OpensTerm outer ∧
    IsExpression expression rule nesting ∧ IsBlanks blanks ∧ c.isConnective = true ∧
    before = outer ++ expression ++ (blanks ++ c.chars)

/-- A name starts where a term does. It is not the end of a longer run of name characters, unless
this run holds the connective behind the expression that precedes the name. -/
def OpensName (before : List Char) : Prop :=
  OpensTerm before ∧ (Stops isNameChar before.reverse ∨ FollowsConnective before)

/-- The name stands right before the place, up to blanks, and does not go on there. -/
def StandsBefore (name front before rest : List Char) : Prop :=
  ∃ blanks, IsBlanks blanks ∧ before = front ++ (name ++ blanks) ∧
    Stops isNameChar (blanks ++ rest)

/-- A term ends with a parenthesis or with its literal. -/
def EndsTerm (before : List Char) : Prop :=
  ∃ front c, before = front ++ [c] ∧ (c = ')' ∨ c = '\'' ∨ c.isDigit = true)

/-- What a fault says is true of the place between the two parts of the text. -/
def ParseError.Reason.PointsAt (before rest : List Char) : ParseError.Reason → Prop
  | .trailing c => ∃ tail, rest = c :: tail ∧ isBlank c = false
  | .missingName (some c) => ∃ tail, rest = c :: tail ∧ isBlank c = false
  | .missingName none => False
  | .missingValue (some c) => ∃ tail, rest = c :: tail ∧ isBlank c = false
  | .missingValue none => rest = []
  | .missingTerm => rest = []
  | .missingParenthesis => ∀ tail, rest ≠ ')' :: tail
  | .negativeNumber => ∃ tail, rest = '-' :: tail
  | .fractionalNumber => ∃ front digit tail,
    before = front ++ [digit] ∧ digit.isDigit = true ∧ rest = '.' :: tail
  | .unterminatedText => ∃ inner, rest = '\'' :: inner ∧ '\'' ∉ inner
  | .numberOutOfRange digits =>
    digits.toList = rest.takeWhile Char.isDigit ∧ UInt64.size ≤ digitsValue digits.toList
  | .missingComparator field => (∀ c : Comparator, ¬ c.chars <+: rest) ∧ IsName field.toList ∧
    ∃ front, StandsBefore field.toList front before rest ∧ OpensName front
  | .nestedTooDeeply => (∃ tail, rest = '(' :: tail) ∨ EndsTerm before

/-- The fault is found in the input, and what it says is true there. -/
def Blames (before input : List Char) (fault : Fault) : Prop :=
  ∃ read, input = read ++ fault.rest ∧ fault.reason.PointsAt (before ++ read) fault.rest

/-- A reader whose faults say what is true, wherever a term can start. -/
def TermBlames (term : List Char → Scan Subtree) : Prop :=
  ∀ {before input fault}, OpensTerm before → term input = .error fault → Blames before input fault

variable {before input rest read : List Char} {fault : Fault} {c : Char}

theorem stops_reverse_of_last (h : isNameChar c = false) :
    Stops isNameChar (before ++ [c]).reverse := by
  rw [List.reverse_append]
  exact h

/-- Only the connectives are words that a name could go on from. -/
theorem stops_reverse_comparator (c : Comparator) (hc : c.isConnective = false) :
    Stops isNameChar (before ++ c.chars).reverse := by
  rw [List.reverse_append]
  cases c with
  | and => cases hc
  | or => cases hc
  | greater => rfl
  | less => rfl
  | equal => rfl
  | greaterEqual => rfl
  | lessEqual => rfl

/-- Where a term starts, a name can start. -/
theorem OpensTerm.opensName (h : OpensTerm before) : OpensName before := by
  induction h with
  | start => exact ⟨.start, .inl trivial⟩
  | @blanks before blanks h hb ih =>
    cases List.eq_nil_or_concat' blanks with
    | inl hn => rwa [hn, List.append_nil]
    | inr hc =>
      obtain ⟨front, c, rfl⟩ := hc
      refine ⟨h.blanks hb, .inl ?_⟩
      rw [← List.append_assoc]
      exact stops_reverse_of_last (not_isNameChar_of_isBlank (hb c List.mem_concat_self))
  | parenthesis h ih => exact ⟨h.parenthesis, .inl (stops_reverse_of_last (by decide))⟩
  | @comparator outer expression rule nesting blanks c h he hb ih =>
    refine ⟨h.comparator c he hb, ?_⟩
    cases hc : c.isConnective with
    | true => exact .inr ⟨outer, expression, rule, nesting, blanks, c, h, he, hb, hc, rfl⟩
    | false =>
      left
      rw [← List.append_assoc]
      exact stops_reverse_comparator c hc

/-- A fault in what is left of the input is a fault of the input. -/
theorem Blames.extend (h : Blames (before ++ read) rest fault) :
    Blames before (read ++ rest) fault := by
  obtain ⟨more, rfl, hp⟩ := h
  refine ⟨read ++ more, (List.append_assoc _ _ _).symm, ?_⟩
  rwa [← List.append_assoc]

theorem Blames.here (h : reason.PointsAt before input) : Blames before input ⟨reason, input⟩ :=
  ⟨[], rfl, by rwa [List.append_nil]⟩

theorem Blames.skip (h : ∀ before, reason.PointsAt before (skipBlanks input)) :
    Blames before input ⟨reason, skipBlanks input⟩ := by
  obtain ⟨blanks, -, hi⟩ := exists_skipBlanks input
  exact ⟨blanks, hi, h _⟩

theorem IsLiteral.endsTerm {text : List Char} (h : IsLiteral text value) :
    EndsTerm (before ++ text) := by
  cases h with
  | @text quoted hq => exact ⟨before ++ '\'' :: quoted, '\'', by simp, .inr (.inl rfl)⟩
  | number hne hd _ =>
    obtain ⟨front, c, rfl⟩ := (List.eq_nil_or_concat' text).resolve_left hne
    exact ⟨before ++ front, c, by simp, .inr (.inr (hd c List.mem_concat_self))⟩

theorem IsTerm.endsTerm {text : List Char} (h : IsTerm text rule nesting) :
    EndsTerm (before ++ text) := by
  cases h with
  | comparison h =>
    obtain ⟨c, hb, hn, hb', hs, hb'', hl⟩ := h
    simp only [← List.append_assoc]
    exact hl.endsTerm
  | @enclosed blanks inner rule nesting blanks' hb h hb' =>
    exact ⟨before ++ (blanks ++ '(' :: (inner ++ blanks')), ')', by simp, .inl rfl⟩

theorem scanNumber_blames (hc : c.isDigit = true) (h : scanNumber (c :: rest) = .error fault) :
    Blames before (c :: rest) fault := by
  simp only [scanNumber] at h
  split at h
  case h_1 tail hdot =>
    cases h
    refine ⟨_, (scanDigits_append _).symm, ?_⟩
    have hne : (scanDigits (c :: rest)).1 ≠ [] := by
      rw [scanDigits, List.takeWhile_cons_of_pos hc]
      exact List.cons_ne_nil _ _
    obtain ⟨front, digit, hd⟩ := (List.eq_nil_or_concat' _).resolve_left hne
    have hdigit : digit ∈ (scanDigits (c :: rest)).1 := hd ▸ List.mem_concat_self
    refine ⟨before ++ front, digit, tail, ?_, mem_takeWhile hdigit, hdot⟩
    rw [hd, List.append_assoc]
  case h_2 =>
    split at h
    case isTrue => cases h
    case isFalse hv =>
      cases h
      apply Blames.here
      simp only [ParseError.Reason.PointsAt, String.toList_ofList]
      exact ⟨rfl, Nat.le_of_not_lt hv⟩

theorem scanLiteral_blames (h : scanLiteral input = .error fault) : Blames before input fault := by
  obtain ⟨blanks, hb, hi⟩ := exists_skipBlanks input
  rw [hi]
  apply Blames.extend
  unfold scanLiteral at h
  split at h
  case h_1 hn =>
    cases h
    rw [hn]
    exact .here rfl
  case h_2 inner hq =>
    rw [hq]
    split at h
    case h_1 hd =>
      cases h
      apply Blames.here
      refine ⟨inner, rfl, fun hm => ?_⟩
      rw [← List.takeWhile_append_dropWhile (p := (· != '\'')) (l := inner), hd,
        List.append_nil] at hm
      cases mem_takeWhile hm
    case h_2 => cases h
  case h_3 d tail _ hd =>
    rw [hd]
    split at h
    case isTrue hdigit => exact scanNumber_blames hdigit h
    case isFalse =>
      split at h
      case isTrue hm =>
        cases h
        exact .here ⟨tail, congrArg (· :: tail) hm⟩
      case isFalse =>
        cases h
        exact .here ⟨tail, rfl, skipBlanks_cons hd⟩

theorem scanName_blames (hi : skipBlanks input = c :: rest) (h : scanName input = .error fault) :
    Blames before input fault := by
  simp only [scanName] at h
  split at h
  · cases h
    apply Blames.skip
    rw [hi]
    exact fun _ => ⟨rest, rfl, skipBlanks_cons hi⟩
  · cases h

theorem scanComparison_blames (ho : OpensTerm before) (hi : skipBlanks input = c :: rest)
    (h : scanComparison input = .error fault) : Blames before input fault := by
  unfold scanComparison at h
  split at h
  case h_1 hname =>
    cases h
    exact scanName_blames hi hname
  case h_2 name afterName hname =>
    obtain ⟨blanks, hb, rfl, hn, hs⟩ := scanName_eq_ok hname
    refine Blames.extend (Blames.extend ?_)
    split at h
    case h_1 hc =>
      cases h
      obtain ⟨blanks', hb', hafter⟩ := exists_skipBlanks afterName
      rw [hafter] at hs
      refine ⟨blanks', hafter, scanComparator_none_prefix hc, ?_⟩
      rw [String.toList_ofList]
      exact ⟨hn, _, ⟨blanks', hb', List.append_assoc _ _ _, hs⟩, (ho.blanks hb).opensName⟩
    case h_2 c afterComparator hc =>
      obtain ⟨blanks', hb', rfl⟩ := scanComparator_eq_some hc
      refine Blames.extend (Blames.extend ?_)
      split at h
      case h_1 hliteral =>
        cases h
        exact scanLiteral_blames hliteral
      case h_2 => cases h

/-- The expression read so far stands before the rest, and each connective goes on from it. -/
theorem scanChain_blames (hr : TermReads term room) (hb : TermBlames term)
    (ho : OpensTerm before) (he : IsExpression expression left.rule nesting)
    (h : scanChain term left input = .error fault) : Blames (before ++ expression) input fault := by
  fun_induction scanChain term left input generalizing expression nesting with
  | case1 => cases h
  | case2 left input c after hc reported ht =>
    cases h
    obtain ⟨blanks, hblanks, rfl⟩ := scanComparator_eq_some hc
    have hterm := hb (ho.comparator c he hblanks) ht
    rw [← List.append_assoc] at hterm
    exact hterm.extend.extend
  | case3 left input c after hc right unread ht hd =>
    cases h
    obtain ⟨blanks, _, rfl⟩ := scanComparator_eq_some hc
    obtain ⟨text, nesting, rfl, hterm, -, -⟩ := hr ht
    refine Blames.extend (Blames.extend (Blames.extend (.here ?_)))
    exact .inr hterm.endsTerm
  | case4 left input c after hc right unread ht hd ih =>
    obtain ⟨blanks, hblanks, rfl⟩ := scanComparator_eq_some hc
    obtain ⟨text, nesting, rfl, hterm, -, -⟩ := hr ht
    have hchain := ih (he.chain c hblanks hterm) h
    simp only [← List.append_assoc] at hchain
    exact hchain.extend.extend.extend

theorem scanExpression_blames (hr : TermReads term room) (hb : TermBlames term)
    (ho : OpensTerm before) (h : scanExpression term input = .error fault) :
    Blames before input fault := by
  unfold scanExpression at h
  split at h
  case h_1 ht =>
    cases h
    exact hb ho ht
  case h_2 ht =>
    obtain ⟨text, nesting, rfl, hterm, -, -⟩ := hr ht
    exact (scanChain_blames hr hb ho (.term hterm) h).extend

theorem scanEnclosed_blames (hr : TermReads term room) (hb : TermBlames term)
    (ho : OpensTerm before) (h : scanEnclosed term input = .error fault) :
    Blames before input fault := by
  unfold scanEnclosed at h
  split at h
  case h_1 he =>
    cases h
    exact scanExpression_blames hr hb ho he
  case h_2 after he =>
    obtain ⟨text, nesting, rfl, -, -, -⟩ := scanExpression_reads hr he
    apply Blames.extend
    split at h
    case h_1 => cases h
    case h_2 hn =>
      cases h
      exact .skip fun _ tail => hn tail

theorem scanTerm_blames (room : Nat) : TermBlames (scanTerm room) := by
  intro before input fault ho h
  obtain ⟨blanks, hb, hinput⟩ := exists_skipBlanks input
  cases hi : skipBlanks input with
  | nil =>
    rw [scanTerm, hi] at h
    cases h
    exact ⟨input, (List.append_nil _).symm, rfl⟩
  | cons c tail =>
    by_cases hc : c = '('
    · rw [hc] at hi
      rw [hi] at hinput
      rw [hinput]
      apply Blames.extend
      cases room with
      | zero =>
        rw [scanTerm_no_room hi] at h
        cases h
        exact .here (.inl ⟨tail, rfl⟩)
      | succ room =>
        rw [scanTerm_of_open hi] at h
        have hopen := (ho.blanks hb).parenthesis
        have hinside := scanEnclosed_blames (scanTerm_reads room) (scanTerm_blames room) hopen h
        exact hinside.extend
    · rw [scanTerm_of_name hi hc] at h
      exact scanComparison_blames ho hi h

theorem scanRule_blames (h : scanRule input = .error fault) : Blames [] input fault := by
  unfold scanRule at h
  split at h
  case h_1 he =>
    cases h
    exact scanExpression_blames (scanTerm_reads _) (scanTerm_blames _) .start he
  case h_2 subtree rest he =>
    obtain ⟨text, nesting, rfl, -, -, -⟩ := scanExpression_reads (scanTerm_reads _) he
    apply Blames.extend
    split at h
    case h_1 => cases h
    case h_2 c tail hc =>
      cases h
      rw [← hc]
      exact .skip fun _ => ⟨tail, hc, skipBlanks_cons hc⟩

/-- The position of a parse error cuts the text in two, and what the error says is true there. -/
theorem Rule.parse_error_points {text : String}
    (h : parse text = .error ⟨position, reason⟩) :
    ∃ before rest : String, text = before ++ rest ∧ position = before.utf8ByteSize ∧
      reason.PointsAt before.toList rest.toList := by
  unfold parse at h
  cases hs : scanRule text.toList with
  | ok rule =>
    rw [hs] at h
    cases h
  | error fault =>
    rw [hs] at h
    cases h
    obtain ⟨read, hi, hp⟩ := scanRule_blames hs
    refine ⟨String.ofList read, String.ofList fault.rest, ?_, ?_, ?_⟩
    · rw [← String.ofList_append, ← hi, String.ofList_toList]
    · rw [← utf8Length_eq_utf8ByteSize, hi, utf8Length_append, Nat.add_sub_cancel]
    · simpa only [String.toList_ofList, List.nil_append] using hp

/-- The field of a comparison without a comparator need not be all of the run of name characters
that ends there: the blanks around a connective can be left out. -/
theorem Rule.name_behind_connective :
    parse "age>5ANDfoo" = .error ⟨11, .missingComparator "foo"⟩ ∧
      "age>5ANDfoo".utf8ByteSize = 11 ∧
      ¬ ∃ front, StandsBefore "foo".toList front "age>5ANDfoo".toList [] ∧
        Stops isNameChar front.reverse := by
  refine ⟨by decide +kernel, by decide, ?_⟩
  rintro ⟨front, ⟨blanks, hb, hbefore, -⟩, hs⟩
  obtain rfl | ⟨others, c, rfl⟩ := List.eq_nil_or_concat' blanks
  · have hfront : "age>5AND".toList = front := List.append_cancel_right hbefore
    rw [← hfront] at hs
    have hd : isNameChar 'D' = false := hs
    revert hd
    decide
  · have hlast : "age>5ANDfo".toList ++ ['o'] = front ++ ("foo".toList ++ others) ++ [c] := by
      rw [List.append_assoc, List.append_assoc]
      exact hbefore
    have hc : 'o' = c := List.singleton_inj.1 (List.append_inj' hlast rfl).2
    have hblank := hb c List.mem_concat_self
    rw [← hc] at hblank
    cases hblank

/-- The position counts bytes, of which `ö` and `ß` take two. -/
theorem Rule.parse_error_points_bytes :
    parse "größe = 'x" = .error ⟨10, .unterminatedText⟩ ∧
      ∃ before rest : String, "größe = 'x" = before ++ rest ∧ 10 = before.utf8ByteSize ∧
        ∃ inner, rest.toList = '\'' :: inner ∧ '\'' ∉ inner := by
  have h : parse "größe = 'x" = .error ⟨10, .unterminatedText⟩ := by decide +kernel
  exact ⟨h, parse_error_points h⟩

end Eligibility
