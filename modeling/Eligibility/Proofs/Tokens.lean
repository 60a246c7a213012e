import Eligibility.Proofs.Scanning

namespace Eligibility
set_option autoImplicit true

variable {input rest blanks : List Char} {c longer : Comparator}

/-- What the search for a lexeme has to find. -/
def IsLongest (candidates : List Comparator) (input : List Char) : Option Comparator → Prop
  | none => ∀ c ∈ candidates, ¬ c.chars <+: input
  | some best => best ∈ candidates ∧ best.chars <+: input ∧
      ∀ c ∈ candidates, c.chars <+: input → c.chars.length ≤ best.chars.length

theorem IsLongest.take (h : IsLongest seen input best) (hp : candidate.chars <+: input)
    (hlt : ∀ other ∈ best, other.chars.length < candidate.chars.length) :
    IsLongest (seen ++ [candidate]) input (some candidate) := by
  refine ⟨List.mem_append_right _ List.mem_cons_self, hp, ?_⟩
  intro c hmem hc
  obtain hmem | hmem := List.mem_append.1 hmem
  · cases best with
    | none => exact absurd hc (h c hmem)
    | some other => exact Nat.le_trans (h.2.2 c hmem hc) (Nat.le_of_lt (hlt other rfl))
  · obtain rfl := List.mem_singleton.1 hmem
    exact Nat.le_refl _

theorem IsLongest.keep (h : IsLongest seen input best)
    (hle : candidate.chars <+: input →
      ∃ other ∈ best, candidate.chars.length ≤ other.chars.length) :
    IsLongest (seen ++ [candidate]) input best := by
  cases best with
  | none =>
    intro c hmem hc
    obtain hmem | hmem := List.mem_append.1 hmem
    · exact h c hmem hc
    · obtain rfl := List.mem_singleton.1 hmem
      obtain ⟨other, ho, -⟩ := hle hc
      cases ho
  | some best =>
    refine ⟨List.mem_append_left _ h.1, h.2.1, ?_⟩
    intro c hmem hc
    obtain hmem | hmem := List.mem_append.1 hmem
    · exact h.2.2 c hmem hc
    · obtain rfl := List.mem_singleton.1 hmem
      obtain ⟨other, ho, hlen⟩ := hle hc
      cases ho
      exact hlen

theorem IsLongest.step (h : IsLongest seen input best) (candidate : Comparator) :
    IsLongest (seen ++ [candidate]) input
      (if candidate.chars.isPrefixOf input && best.all (·.chars.length < candidate.chars.length)
      then some candidate else best) := by
  split
  · rename_i hc
    rw [Bool.and_eq_true, List.isPrefixOf_iff_prefix, Option.all_eq_true] at hc
    apply h.take hc.1
    intro other ho
    exact of_decide_eq_true (hc.2 other ho)
  · rename_i hc
    rw [Bool.and_eq_true, List.isPrefixOf_iff_prefix, Option.all_eq_true] at hc
    apply h.keep
    intro hp
    cases best with
    | none => exact absurd ⟨hp, nofun⟩ hc
    | some other =>
      refine ⟨other, rfl, Nat.le_of_not_lt fun hlt => hc ⟨hp, ?_⟩⟩
      intro best hb
      cases hb
      exact decide_eq_true hlt

theorem longestLexeme?_isLongest (candidates : List Comparator) (input : List Char) :
    IsLongest candidates input (longestLexeme? candidates input) := by
  have hfold : ∀ seen best, IsLongest seen input best →
      IsLongest (seen ++ candidates) input (candidates.foldl (fun best candidate =>
        if candidate.chars.isPrefixOf input && best.all (·.chars.length < candidate.chars.length)
        then some candidate else best) best) := by
    induction candidates with
    | nil =>
      intro seen best h
      rwa [List.append_nil]
    | cons candidate candidates ih =>
      intro seen best h
      have hs := ih _ _ (h.step candidate)
      rwa [List.append_assoc] at hs
  exact hfold [] none (List.forall_mem_nil _)

theorem Comparator.chars_ne_nil (c : Comparator) : c.chars ≠ [] := by
  cases c <;> exact List.cons_ne_nil _ _

theorem Comparator.stops_chars (hp : ∀ c : Comparator, Stops p c.chars) (c : Comparator) :
    Stops p (c.chars ++ rest) := by
  have hc := hp c
  cases c <;> exact hc

theorem Comparator.eq_or_prolonged (h : c.chars <+: longer.chars) :
    longer = c ∨ longer.chars = c.chars ++ ['='] := by
  revert h
  cases c <;> cases longer <;> decide

/-- No other lexeme is longer at the same place, unless a `=` follows. -/
theorem Comparator.eq_of_prefix (hb : longer.chars <+: c.chars ++ rest)
    (hl : c.chars.length ≤ longer.chars.length) (hs : Stops (· == '=') rest) : longer = c := by
  have hp := List.prefix_of_prefix_length_le (List.prefix_append _ _) hb hl
  rcases eq_or_prolonged hp with he | he
  · exact he
  · rw [he, List.prefix_append_right_inj] at hb
    obtain ⟨tail, ht⟩ := hb
    rw [← ht] at hs
    cases hs

theorem scanComparator_append (hb : IsBlanks blanks) (hs : Stops (· == '=') rest) :
    scanComparator (blanks ++ (c.chars ++ rest)) = some (c, rest) := by
  have hskip : skipBlanks (blanks ++ (c.chars ++ rest)) = c.chars ++ rest :=
    skipBlanks_append hb (c.stops_chars (by intro c; cases c <;> exact rfl))
  have hl := longestLexeme?_isLongest Comparator.all (c.chars ++ rest)
  have hc : c.chars <+: c.chars ++ rest := List.prefix_append _ _
  cases hbest : longestLexeme? Comparator.all (c.chars ++ rest) with
  | none =>
    rw [hbest] at hl
    exact absurd hc (hl c c.mem_all)
  | some best =>
    rw [hbest] at hl
    have he := Comparator.eq_of_prefix hl.2.1 (hl.2.2 c c.mem_all hc) hs
    simp only [scanComparator, scanLexeme, hskip, hbest, Option.map_some, he, List.drop_left]

theorem scanComparator_eq_some (h : scanComparator input = some (c, rest)) :
    ∃ blanks, IsBlanks blanks ∧ input = blanks ++ (c.chars ++ rest) := by
  obtain ⟨blanks, hb, hi⟩ := exists_skipBlanks input
  obtain ⟨best, hbest, he⟩ := Option.map_eq_some_iff.1 h
  cases he
  have hl := longestLexeme?_isLongest Comparator.all (skipBlanks input)
  rw [hbest] at hl
  refine ⟨blanks, hb, ?_⟩
  rw [List.prefix_iff_eq_append.1 hl.2.1]
  exact hi

theorem scanComparator_eq_none (hb : IsBlanks blanks) (hs : Stops isBlank rest)
    (hn : ∀ c : Comparator, ¬ c.chars <+: rest) : scanComparator (blanks ++ rest) = none := by
  have hl := longestLexeme?_isLongest Comparator.all rest
  cases hbest : longestLexeme? Comparator.all rest with
  | none => simp only [scanComparator, scanLexeme, skipBlanks_append hb hs, hbest, Option.map_none]
  | some best =>
    rw [hbest] at hl
    exact absurd hl.2.1 (hn best)

theorem scanComparator_blanks (hb : IsBlanks blanks) : scanComparator blanks = none := by
  have hs : Stops isBlank [] := trivial
  have hn : ∀ c : Comparator, ¬ c.chars <+: [] := fun c hp => c.chars_ne_nil (List.prefix_nil.1 hp)
  have h := scanComparator_eq_none hb hs hn
  rwa [List.append_nil] at h

theorem scanComparator_none_prefix (h : scanComparator input = none) (c : Comparator) :
    ¬ c.chars <+: skipBlanks input := by
  have hl := longestLexeme?_isLongest Comparator.all (skipBlanks input)
  rw [Option.map_eq_none_iff.1 h] at hl
  exact hl c c.mem_all

theorem scanComparator_of_end (h : skipBlanks input = []) : scanComparator input = none := by
  obtain ⟨blanks, hb, hi⟩ := exists_skipBlanks input
  rw [hi, h, List.append_nil]
  exact scanComparator_blanks hb

/-- The texts of a literal: characters other than a quote between two quotes, or digits, with
leading zeros or not, whose number fits 64 bits. -/
inductive IsLiteral : List Char → Literal → Prop
  | text (hq : '\'' ∉ quoted) :
    IsLiteral ('\'' :: (quoted ++ ['\''])) (.text (String.ofList quoted))
  | number (hne : digits ≠ []) (hd : ∀ c ∈ digits, c.isDigit = true)
    (hv : digitsValue digits < UInt64.size) :
    IsLiteral digits (.number (.ofNat (digitsValue digits)))

theorem IsLiteral.stops_equals {text rest : List Char} (h : IsLiteral text value) :
    Stops (· == '=') (text ++ rest) := by
  cases h with
  | text => rfl
  | number hne hd _ =>
    cases text with
    | nil => exact absurd rfl hne
    | cons c digits =>
      have hc := hd c List.mem_cons_self
      cases he : c == '=' with
      | false => exact he
      | true =>
        rw [eq_of_beq he] at hc
        cases hc

theorem scanNumber_append (hd : ∀ c ∈ digits, c.isDigit = true)
    (hv : digitsValue digits < UInt64.size) (hs : Stops isNumberChar rest) :
    scanNumber (digits ++ rest) = .ok (.number (.ofNat (digitsValue digits)), rest) := by
  have hsd := hs.weaken fun c => not_isDigit_of_not_isNumberChar
  simp only [scanNumber, scanDigits_run hd hsd]
  split
  · cases hs
  · exact if_pos hv

theorem scanNumber_eq_ok {c : Char} (hc : c.isDigit = true)
    (h : scanNumber (c :: input) = .ok (value, rest)) :
    ∃ digits, c :: input = digits ++ rest ∧ IsLiteral digits value := by
  have hne : (scanDigits (c :: input)).1 ≠ [] := by
    rw [scanDigits, List.takeWhile_cons_of_pos hc]
    exact List.cons_ne_nil _ _
  simp only [scanNumber] at h
  split at h
  · cases h
  · split at h
    · rename_i hv
      cases h
      exact ⟨_, (scanDigits_append _).symm, .number hne (fun _ => mem_takeWhile) hv⟩
    · cases h

theorem scanNumber_of_point (h : input.dropWhile Char.isDigit = '.' :: rest) :
    scanNumber input = .error ⟨.fractionalNumber, '.' :: rest⟩ := by
  simp only [scanNumber, scanDigits, h]

theorem scanNumber_of_digits (h : ∀ rest, input.dropWhile Char.isDigit ≠ '.' :: rest) :
    scanNumber input =
      if digitsValue (input.takeWhile Char.isDigit) < UInt64.size then
        .ok (.number (.ofNat (digitsValue (input.takeWhile Char.isDigit))),
          input.dropWhile Char.isDigit)
      else .error ⟨.numberOutOfRange (String.ofList (input.takeWhile Char.isDigit)), input⟩ := by
  simp only [scanNumber, scanDigits]
  rfl

theorem scanLiteral_skipBlanks (input : List Char) :
    scanLiteral (skipBlanks input) = scanLiteral input := by
  simp only [scanLiteral, skipBlanks_skipBlanks]

theorem scanLiteral_of_digit {c : Char} (hi : skipBlanks input = c :: tail)
    (hc : c.isDigit = true) : scanLiteral input = scanNumber (c :: tail) := by
  unfold scanLiteral
  rw [hi]
  split
  · rename_i he
    cases he
  · rename_i he
    cases he
    cases hc
  · rename_i he
    cases he
    exact if_pos hc

theorem scanLiteral_of_quote (hi : skipBlanks input = '\'' :: (quoted ++ '\'' :: rest))
    (hq : '\'' ∉ quoted) : scanLiteral input = .ok (.text (String.ofList quoted), rest) := by
  have hrun : ∀ c ∈ quoted, (c != '\'') = true := by
    intro c hc
    exact bne_iff_ne.2 fun he => hq (he ▸ hc)
  have hstop : Stops (· != '\'') ('\'' :: rest) := rfl
  simp only [scanLiteral, hi, dropWhile_run hrun hstop, takeWhile_run hrun hstop]

theorem scanLiteral_of_open (h : rest.dropWhile (· != '\'') = []) :
    scanLiteral ('\'' :: rest) = .error ⟨.unterminatedText, '\'' :: rest⟩ := by
  have hs : skipBlanks ('\'' :: rest) = '\'' :: rest := rfl
  simp only [scanLiteral, hs, h]

theorem scanLiteral_of_no_quote (h : '\'' ∉ text) :
    scanLiteral ('\'' :: text) = .error ⟨.unterminatedText, '\'' :: text⟩ := by
  have hrun : ∀ c ∈ text, (c != '\'') = true := by
    intro c hc
    exact bne_iff_ne.2 fun he => h (he ▸ hc)
  have hd : (text ++ []).dropWhile (· != '\'') = [] := dropWhile_run hrun trivial
  rw [List.append_nil] at hd
  exact scanLiteral_of_open hd

theorem scanLiteral_of_other {c : Char} (hi : skipBlanks input = c :: rest) (hq : c ≠ '\'')
    (hd : c.isDigit = false) :
    scanLiteral input =
      .error ⟨if c = '-' then .negativeNumber else .missingValue (some c), c :: rest⟩ := by
  unfold scanLiteral
  rw [hi]
  split
  case h_1 he => cases he
  case h_2 he =>
    cases he
    exact absurd rfl hq
  case h_3 he =>
    cases he
    rw [if_neg (Bool.eq_false_iff.1 hd)]
    split <;> rfl

/-- The first quote ends a quoted text. -/
theorem takeWhile_quote {q : Char} (h : quoted.dropWhile (· != '\'') = q :: rest) :
    '\'' ∉ quoted.takeWhile (· != '\'') ∧
      quoted = quoted.takeWhile (· != '\'') ++ '\'' :: rest := by
  have hs := stops_dropWhile (· != '\'') quoted
  rw [h] at hs
  have hq : q = '\'' := bne_eq_false_iff_eq.1 hs
  rw [hq] at h
  constructor
  · intro hmem
    cases mem_takeWhile hmem
  · rw [← h, List.takeWhile_append_dropWhile]

theorem scanLiteral_append (hb : IsBlanks blanks) (hl : IsLiteral text value)
    (hs : Stops isNumberChar rest) :
    scanLiteral (blanks ++ (text ++ rest)) = .ok (value, rest) := by
  cases hl with
  | @text quoted hq =>
    have htext : '\'' :: (quoted ++ ['\'']) ++ rest = '\'' :: (quoted ++ '\'' :: rest) := by
      rw [List.cons_append, List.append_assoc, List.singleton_append]
    have hquote : Stops isBlank ('\'' :: (quoted ++ '\'' :: rest)) := rfl
    rw [htext]
    exact scanLiteral_of_quote (skipBlanks_append hb hquote) hq
  | number hne hd hv =>
    cases text with
    | nil => exact absurd rfl hne
    | cons c digits =>
      have hc : c.isDigit = true := hd c List.mem_cons_self
      have hskip : skipBlanks (blanks ++ (c :: digits ++ rest)) = c :: (digits ++ rest) :=
        skipBlanks_append hb (not_isBlank_of_isDigit hc)
      rw [scanLiteral_of_digit hskip hc]
      exact scanNumber_append hd hv hs

theorem scanLiteral_eq_ok (h : scanLiteral input = .ok (value, rest)) :
    ∃ blanks text, IsBlanks blanks ∧ input = blanks ++ (text ++ rest) ∧ IsLiteral text value := by
  obtain ⟨blanks, hb, hi⟩ := exists_skipBlanks input
  unfold scanLiteral at h
  split at h
  · cases h
  · rename_i quoted hskip
    split at h
    · cases h
    · rename_i q _ htail
      cases h
      obtain ⟨hq, hquoted⟩ := takeWhile_quote htail
      refine ⟨blanks, _, hb, ?_, .text hq⟩
      rw [List.cons_append, List.append_assoc, List.singleton_append, ← hquoted, ← hskip]
      exact hi
  · rename_i c tail hne hskip
    split at h
    · rename_i hc
      obtain ⟨digits, hd, hl⟩ := scanNumber_eq_ok hc h
      refine ⟨blanks, digits, hb, ?_, hl⟩
      rw [← hd, ← hskip]
      exact hi
    · split at h <;> cases h

end Eligibility
