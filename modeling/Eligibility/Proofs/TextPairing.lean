import Eligibility.Proofs.Lockstep

namespace Eligibility
set_option autoImplicit true

/-- Two texts are both empty, both start with a blank, or start with the same other character. After
a quote nothing is said of what follows. -/
inductive SameStep (inputs : List Char → List Char → Prop) : List Char → List Char → Prop
  | nil : SameStep inputs [] []
  | blank (hb : isBlank c = true) (hb' : isBlank c' = true) :
    SameStep inputs (c :: rest) (c' :: rest')
  | char (hc : isBlank c = false) (h : c ≠ '\'' → inputs rest rest') :
    SameStep inputs (c :: rest) (c :: rest')

/-- A way to pair inputs outside of quotes that does not ask which token comes next, as it goes
character by character, blanks apart. -/
structure TextPairing where
  inputs : List Char → List Char → Prop
  unread : List Char → List Char → Prop
  excused : Fault → Prop
  endExcused : Prop
  excused_end : endExcused → ∀ reason, excused ⟨reason, []⟩
  unread_of_inputs : inputs input input' → unread input input'
  skip : inputs input input' →
    (endExcused ∧ skipBlanks input = []) ∨ inputs (skipBlanks input) (skipBlanks input')
  step : inputs input input' → SameStep inputs input input'
  quoted : inputs ('\'' :: rest) ('\'' :: rest') →
    Agree inputs unread excused (scanLiteral ('\'' :: rest)) (scanLiteral ('\'' :: rest'))

variable {t : TextPairing} {input input' rest rest' : List Char} {q : Char → Bool}

theorem SameStep.starts_iff (h : SameStep inputs input input') (hc : isBlank c = false) :
    (∃ rest, input = c :: rest) ↔ ∃ rest, input' = c :: rest := by
  have hblank : ∀ {d rest}, isBlank d = true → ¬ ∃ tail, d :: rest = c :: tail := by
    rintro d rest hd ⟨tail, he⟩
    rw [(List.cons.inj he).1] at hd
    exact absurd hd (Bool.eq_false_iff.1 hc)
  cases h with
  | nil => exact Iff.rfl
  | blank hb hb' => exact iff_of_false (hblank hb) (hblank hb')
  | char =>
    constructor
    · rintro ⟨_, ⟨⟩⟩
      exact ⟨_, rfl⟩
    · rintro ⟨_, ⟨⟩⟩
      exact ⟨_, rfl⟩

theorem TextPairing.run (hb : ∀ c, isBlank c = true → q c = false) (hq : q '\'' = false)
    (h : t.inputs input input') :
    input.takeWhile q = input'.takeWhile q ∧ t.inputs (input.dropWhile q) (input'.dropWhile q) := by
  induction input generalizing input' with
  | nil =>
    cases t.step h with
    | nil => exact ⟨rfl, h⟩
  | cons c rest ih =>
    cases t.step h with
    | blank hc hc' =>
      have hn := Bool.eq_false_iff.1 (hb _ hc)
      have hn' := Bool.eq_false_iff.1 (hb _ hc')
      rw [List.takeWhile_cons_of_neg hn, List.takeWhile_cons_of_neg hn',
        List.dropWhile_cons_of_neg hn, List.dropWhile_cons_of_neg hn']
      exact ⟨rfl, h⟩
    | char hc hr =>
      by_cases hp : q c = true
      · have hne : c ≠ '\'' := by
          rintro rfl
          exact absurd hp (Bool.eq_false_iff.1 hq)
        obtain ⟨htake, hdrop⟩ := ih (hr hne)
        simp only [List.takeWhile_cons_of_pos hp, List.dropWhile_cons_of_pos hp, htake]
        exact ⟨trivial, hdrop⟩
      · simp only [List.takeWhile_cons_of_neg hp, List.dropWhile_cons_of_neg hp]
        exact ⟨trivial, h⟩

theorem TextPairing.tail (h : t.inputs (c :: rest) (c :: rest')) (hc : isBlank c = false)
    (hq : c ≠ '\'') : t.inputs rest rest' := by
  cases t.step h with
  | blank hb => exact absurd hb (Bool.eq_false_iff.1 hc)
  | char _ hr => exact hr hq

theorem TextPairing.split (hw : ∀ c ∈ word, isBlank c = false ∧ c ≠ '\'')
    (h : t.inputs (word ++ rest) input') :
    ∃ rest', input' = word ++ rest' ∧ t.inputs rest rest' := by
  induction word generalizing input' with
  | nil => exact ⟨input', rfl, h⟩
  | cons c word ih =>
    obtain ⟨hc, hq⟩ := hw c List.mem_cons_self
    cases t.step h with
    | blank hb => exact absurd hb (Bool.eq_false_iff.1 hc)
    | char _ hr =>
      obtain ⟨rest', rfl, hi⟩ := ih (fun d hd => hw d (List.mem_cons_of_mem _ hd)) (hr hq)
      exact ⟨rest', rfl, hi⟩

theorem TextPairing.head (h : t.inputs input input') :
    SameHead t.unread t.endExcused (skipBlanks input) (skipBlanks input') := by
  rcases t.skip h with ⟨he, hend⟩ | hs
  · rw [hend]
    exact .ended he
  · have hu := t.unread_of_inputs hs
    have hstops : Stops isBlank (skipBlanks input) := stops_dropWhile isBlank input
    generalize skipBlanks input = skipped at hs hu hstops ⊢
    generalize skipBlanks input' = skipped' at hs hu ⊢
    cases t.step hs with
    | nil => exact .nil hu
    | blank hb => exact absurd hb (Bool.eq_false_iff.1 hstops)
    | char => exact .cons hu

theorem TextPairing.parenthesis (h : t.inputs input input') (hc : isBlank c = false)
    (hq : c ≠ '\'') (hi : skipBlanks input = c :: rest) (hi' : skipBlanks input' = c :: rest') :
    t.inputs rest rest' := by
  rcases t.skip h with ⟨-, hend⟩ | hs
  · rw [hi] at hend
    cases hend
  · rw [hi, hi'] at hs
    exact t.tail hs hc hq

/-- The characters that lexemes are made of: neither blanks nor quotes. -/
def isInk (c : Char) : Bool :=
  !isBlank c && c != '\''

theorem Comparator.isInk_of_mem_chars (c : Comparator) : ∀ d ∈ c.chars, isInk d = true := by
  rw [← List.all_eq_true]
  cases c <;> rfl

theorem longestLexeme?_congr (h : input.takeWhile isInk = input'.takeWhile isInk)
    (candidates : List Comparator) :
    longestLexeme? candidates input = longestLexeme? candidates input' := by
  have hp : ∀ c : Comparator, c.chars.isPrefixOf input = c.chars.isPrefixOf input' := by
    intro c
    rw [Bool.eq_iff_iff, List.isPrefixOf_iff_prefix, List.isPrefixOf_iff_prefix,
      ← prefix_takeWhile_iff c.isInk_of_mem_chars, h, prefix_takeWhile_iff c.isInk_of_mem_chars]
  simp only [longestLexeme?, hp]

theorem TextPairing.comparator (h : t.inputs input input') :
    (t.endExcused ∧ skipBlanks input = []) ∨
      Option.Rel (fun found found' => found.1 = found'.1 ∧ t.inputs found.2 found'.2)
        (scanComparator input) (scanComparator input') := by
  rcases t.skip h with hend | hs
  · exact .inl hend
  · right
    have hink := (t.run (q := isInk) (fun c hc => by simp [isInk, hc]) rfl hs).1
    have hlongest := longestLexeme?_isLongest Comparator.all (skipBlanks input)
    simp only [scanComparator, scanLexeme, ← longestLexeme?_congr hink]
    cases hfound : longestLexeme? Comparator.all (skipBlanks input) with
    | none => exact .none
    | some c =>
      rw [hfound] at hlongest
      obtain ⟨rest, hrest⟩ := hlongest.2.1
      have hchars : ∀ d ∈ c.chars, isBlank d = false ∧ d ≠ '\'' := by
        intro d hd
        have hi := c.isInk_of_mem_chars d hd
        simpa [isInk] using hi
      rw [← hrest] at hs ⊢
      obtain ⟨rest', hrest', hr⟩ := t.split hchars hs
      rw [hrest', Option.map_some, Option.map_some, List.drop_left, List.drop_left]
      exact .some ⟨rfl, hr⟩

theorem TextPairing.name (h : t.inputs input input') :
    Agree t.inputs t.unread t.excused (scanName input) (scanName input') := by
  have hhead := t.head h
  rcases t.skip h with ⟨he, hend⟩ | hs
  · simp only [scanName, hend]
    exact .excused (t.excused_end he _)
  · obtain ⟨htake, hdrop⟩ :=
      t.run (q := isNameChar) (fun c => not_isNameChar_of_isBlank) (by decide) hs
    simp only [scanName, ← htake]
    generalize skipBlanks input = skipped at hhead hs htake hdrop ⊢
    generalize skipBlanks input' = skipped' at hhead hs htake hdrop ⊢
    cases hname : skipped.takeWhile isNameChar with
    | nil =>
      cases hhead with
      | nil hu => exact .fault hu
      | cons hu => exact .fault hu
      | ended he => exact .excused (t.excused_end he _)
    | cons c name => exact .read hdrop

theorem TextPairing.number (h : t.inputs input input') :
    Agree t.inputs t.unread t.excused (scanNumber input) (scanNumber input') := by
  obtain ⟨htake, hdrop⟩ :=
    t.run (q := Char.isDigit) (fun c => isBlank_excludes (by decide)) (by decide) h
  have hpoint := (t.step hdrop).starts_iff (c := '.') (by decide)
  by_cases hp : ∃ rest, input.dropWhile Char.isDigit = '.' :: rest
  · obtain ⟨rest', hp'⟩ := hpoint.1 hp
    obtain ⟨rest, hp⟩ := hp
    rw [hp, hp'] at hdrop
    rw [scanNumber_of_point hp, scanNumber_of_point hp']
    exact .fault (t.unread_of_inputs hdrop)
  · have hp' := fun h => hp (hpoint.2 h)
    rw [scanNumber_of_digits (not_exists.1 hp), scanNumber_of_digits (not_exists.1 hp'), htake]
    split
    · exact .read hdrop
    · exact .fault (t.unread_of_inputs h)

theorem TextPairing.literal (h : t.inputs input input') :
    Agree t.inputs t.unread t.excused (scanLiteral input) (scanLiteral input') := by
  have hhead := t.head h
  generalize hi : skipBlanks input = skipped at hhead
  generalize hi' : skipBlanks input' = skipped' at hhead
  cases hhead with
  | nil hu =>
    simp only [scanLiteral, hi, hi']
    exact .fault hu
  | @cons c rest rest' hu =>
    have hs := (t.skip h).resolve_left fun hend => by simp [hi] at hend
    rw [hi, hi'] at hs
    by_cases hq : c = '\''
    · subst hq
      rw [← scanLiteral_skipBlanks input, ← scanLiteral_skipBlanks input', hi, hi']
      exact t.quoted hs
    · cases hd : c.isDigit with
      | true =>
        rw [scanLiteral_of_digit hi hd, scanLiteral_of_digit hi' hd]
        exact t.number hs
      | false =>
        rw [scanLiteral_of_other hi hq hd, scanLiteral_of_other hi' hq hd]
        exact .fault hu
  | ended he =>
    simp only [scanLiteral, hi]
    exact .excused (t.excused_end he _)

/-- Such a way to pair inputs is kept by the readers of all tokens. -/
def TextPairing.pairing (t : TextPairing) : Pairing where
  inputs _ := t.inputs
  unread := t.unread
  excused := t.excused
  endExcused := t.endExcused
  excused_end := t.excused_end
  unread_link := t.unread_of_inputs
  head := t.head
  opening h := t.parenthesis h rfl (by decide)
  closing h := t.parenthesis h rfl (by decide)
  name := t.name
  comparator _ := t.comparator
  literal := t.literal

end Eligibility
