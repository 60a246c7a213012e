import Eligibility.Rule.Parser

namespace Eligibility
set_option autoImplicit true

instance decidableEqExcept [DecidableEq ε] [DecidableEq α] : DecidableEq (Except ε α)
  | .ok a, .ok b => decidable_of_iff (a = b) ⟨congrArg _, Except.ok.inj⟩
  | .error e, .error f => decidable_of_iff (e = f) ⟨congrArg _, Except.error.inj⟩
  | .ok _, .error _ => isFalse nofun
  | .error _, .ok _ => isFalse nofun

variable {p : Char → Bool} {c : Char} {input rest : List Char}

/-- The text is empty or starts with a character outside the class. -/
def Stops (p : Char → Bool) : List Char → Prop
  | [] => True
  | c :: _ => p c = false

theorem Stops.append (hl : Stops p left) (hr : Stops p right) : Stops p (left ++ right) := by
  cases left with
  | nil => exact hr
  | cons => exact hl

theorem Stops.prolong (h : Stops p text) (hne : text ≠ []) : Stops p (text ++ rest) := by
  cases text with
  | nil => exact absurd rfl hne
  | cons => exact h

theorem Stops.of_append (h : Stops p (text ++ rest)) : Stops p text := by
  cases text with
  | nil => trivial
  | cons => exact h

theorem Stops.dropWhile (h : Stops p rest) : rest.dropWhile p = rest := by
  cases rest with
  | nil => rfl
  | cons c rest => exact List.dropWhile_cons_of_neg (Bool.eq_false_iff.1 h)

theorem Stops.takeWhile (h : Stops p rest) : rest.takeWhile p = [] := by
  cases rest with
  | nil => rfl
  | cons c rest => exact List.takeWhile_cons_of_neg (Bool.eq_false_iff.1 h)

theorem Stops.weaken {p q : Char → Bool} (h : Stops p rest)
    (hp : ∀ c, p c = false → q c = false) : Stops q rest := by
  cases rest with
  | nil => trivial
  | cons c rest => exact hp c h

theorem stops_dropWhile (p : Char → Bool) (input : List Char) : Stops p (input.dropWhile p) := by
  induction input with
  | nil => trivial
  | cons c rest ih =>
    by_cases h : p c
    · rw [List.dropWhile_cons_of_pos h]
      exact ih
    · rw [List.dropWhile_cons_of_neg h]
      exact Bool.eq_false_iff.2 h

theorem dropWhile_run (hr : ∀ c ∈ run, p c = true) (hs : Stops p rest) :
    (run ++ rest).dropWhile p = rest := by
  rw [List.dropWhile_append_of_pos hr, hs.dropWhile]

theorem takeWhile_run (hr : ∀ c ∈ run, p c = true) (hs : Stops p rest) :
    (run ++ rest).takeWhile p = run := by
  rw [List.takeWhile_append_of_pos hr, hs.takeWhile, List.append_nil]

theorem mem_takeWhile (h : c ∈ input.takeWhile p) : p c = true :=
  List.all_eq_true.1 List.all_takeWhile c h

theorem prefix_takeWhile_iff (hw : ∀ c ∈ word, p c = true) :
    word <+: input.takeWhile p ↔ word <+: input := by
  constructor
  · intro h
    exact h.trans (List.takeWhile_prefix p)
  · rintro ⟨rest, rfl⟩
    rw [List.takeWhile_append_of_pos hw]
    exact List.prefix_append _ _

/-- A run of blanks, which may be empty. -/
def IsBlanks (blanks : List Char) : Prop :=
  ∀ c ∈ blanks, isBlank c = true

instance decidableIsBlanks (blanks : List Char) : Decidable (IsBlanks blanks) :=
  decidable_of_iff (blanks.all isBlank = true) List.all_eq_true

theorem IsBlanks.nil : IsBlanks [] :=
  List.forall_mem_nil _

theorem IsBlanks.space : IsBlanks [' '] := by
  intro c hc
  rw [List.mem_singleton.1 hc]
  decide

theorem IsBlanks.append (hl : IsBlanks blanks) (hr : IsBlanks blanks') :
    IsBlanks (blanks ++ blanks') := by
  intro c hc
  exact (List.mem_append.1 hc).elim (hl c) (hr c)

/-- A property of characters fails for all blanks if it fails for the listed ones. -/
theorem isBlank_excludes (hp : ∀ code ∈ blankCodes, p (.ofNat code) = false)
    (h : isBlank c = true) : p c = false := by
  have hc := hp c.toNat (List.contains_iff_mem.1 h)
  rwa [Char.ofNat_toNat] at hc

theorem not_isBlank (hp : ∀ code ∈ blankCodes, p (.ofNat code) = false) (h : p c = true) :
    isBlank c = false := by
  cases hb : isBlank c with
  | false => rfl
  | true => exact absurd (isBlank_excludes hp hb) (Bool.eq_false_iff.1 · h)

theorem not_isNameChar_of_mem_blankCodes :
    ∀ code ∈ blankCodes, isNameChar (.ofNat code) = false := by
  decide +kernel

theorem not_isNameChar_of_isBlank (h : isBlank c = true) : isNameChar c = false :=
  isBlank_excludes not_isNameChar_of_mem_blankCodes h

theorem not_isBlank_of_isNameChar (h : isNameChar c = true) : isBlank c = false :=
  not_isBlank not_isNameChar_of_mem_blankCodes h

theorem not_isBlank_of_isDigit (h : c.isDigit = true) : isBlank c = false :=
  not_isBlank (by decide) h

/-- The characters that would prolong a number. -/
def isNumberChar (c : Char) : Bool :=
  c.isDigit || c == '.'

theorem not_isDigit_of_not_isNumberChar (h : isNumberChar c = false) : c.isDigit = false :=
  (Bool.or_eq_false_iff.1 h).1

theorem not_isNumberChar_of_isBlank (h : isBlank c = true) : isNumberChar c = false :=
  isBlank_excludes (by decide) h

theorem not_equals_of_isBlank (h : isBlank c = true) : (c == '=') = false :=
  isBlank_excludes (p := (· == '=')) (by decide) h

theorem IsBlanks.stops (hb : IsBlanks blanks) (hp : ∀ c, isBlank c = true → p c = false)
    (hs : Stops p rest) : Stops p (blanks ++ rest) := by
  cases blanks with
  | nil => exact hs
  | cons c blanks => exact hp c (hb c List.mem_cons_self)

theorem scanDigits_run (hd : ∀ c ∈ digits, c.isDigit = true) (hs : Stops Char.isDigit rest) :
    scanDigits (digits ++ rest) = (digits, rest) := by
  rw [scanDigits, takeWhile_run hd hs, dropWhile_run hd hs]

theorem scanNat_append (hd : ∀ c ∈ digits, c.isDigit = true) (hne : digits ≠ [])
    (hs : Stops Char.isDigit rest) :
    scanNat (digits ++ rest) = some (digitsValue digits, rest) := by
  rw [scanNat, scanDigits_run hd hs]
  cases digits with
  | nil => exact absurd rfl hne
  | cons => rfl

theorem skipBlanks_append (hb : IsBlanks blanks) (hs : Stops isBlank rest) :
    skipBlanks (blanks ++ rest) = rest :=
  dropWhile_run hb hs

theorem IsBlanks.skip (hb : IsBlanks blanks) (rest : List Char) :
    skipBlanks (blanks ++ rest) = skipBlanks rest :=
  List.dropWhile_append_of_pos hb

theorem skipBlanks_blanks (hb : IsBlanks blanks) : skipBlanks blanks = [] := by
  have h : skipBlanks (blanks ++ []) = [] := skipBlanks_append hb trivial
  rwa [List.append_nil] at h

theorem exists_skipBlanks (input : List Char) :
    ∃ blanks, IsBlanks blanks ∧ input = blanks ++ skipBlanks input :=
  ⟨input.takeWhile isBlank, fun _ => mem_takeWhile, List.takeWhile_append_dropWhile.symm⟩

theorem skipBlanks_cons (h : skipBlanks input = c :: rest) : isBlank c = false := by
  have hs := stops_dropWhile isBlank input
  rw [← skipBlanks, h] at hs
  exact hs

/-- The name of a field as rule text can spell it. -/
def IsName (name : List Char) : Prop :=
  name ≠ [] ∧ ∀ c ∈ name, isNameChar c = true

instance decidableIsName (name : List Char) : Decidable (IsName name) :=
  decidable_of_iff (name ≠ [] ∧ name.all isNameChar = true) (and_congr Iff.rfl List.all_eq_true)

theorem IsName.stops (hn : IsName name) (hp : ∀ c, isNameChar c = true → p c = false) :
    Stops p (name ++ rest) := by
  cases name with
  | nil => exact absurd rfl hn.1
  | cons c name => exact hp c (hn.2 c List.mem_cons_self)

theorem scanName_append (hb : IsBlanks blanks) (hn : IsName name) (hs : Stops isNameChar rest) :
    scanName (blanks ++ (name ++ rest)) = .ok (name, rest) := by
  have hskip : skipBlanks (blanks ++ (name ++ rest)) = name ++ rest :=
    skipBlanks_append hb (hn.stops fun _ => not_isBlank_of_isNameChar)
  simp only [scanName, hskip, takeWhile_run hn.2 hs, dropWhile_run hn.2 hs]
  cases name with
  | nil => exact absurd rfl hn.1
  | cons => rfl

theorem scanName_eq_ok (h : scanName input = .ok (name, rest)) :
    ∃ blanks, IsBlanks blanks ∧ input = blanks ++ (name ++ rest) ∧
      IsName name ∧ Stops isNameChar rest := by
  obtain ⟨blanks, hb, hi⟩ := exists_skipBlanks input
  simp only [scanName] at h
  split at h
  · cases h
  · rename_i hne
    cases h
    refine ⟨blanks, hb, ?_, ⟨hne, fun _ => mem_takeWhile⟩, stops_dropWhile _ _⟩
    rw [List.takeWhile_append_dropWhile]
    exact hi

end Eligibility
