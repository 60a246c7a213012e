import Eligibility.Proofs.Descent

namespace Eligibility
set_option autoImplicit true

/-- The text starts with the lexeme of the comparator, and every other lexeme that it starts with
has fewer bytes. -/
structure IsLongestLexeme (c : Comparator) (input : List Char) : Prop where
  starts : c.lexeme.toList <+: input
  longer : ∀ other : Comparator, other.lexeme.toList <+: input → other ≠ c →
    other.lexeme.utf8ByteSize < c.lexeme.utf8ByteSize

variable {text : String} {input rest blanks run : List Char} {c d : Comparator}
variable {cursor earlier later : Cursor}
variable {table : List (String × Comparator)}

theorem Comparator.toList_lexeme (c : Comparator) : c.lexeme.toList = c.chars :=
  String.toList_ofList

theorem Comparator.eq_of_chars_eq (h : c.chars = d.chars) : c = d := by
  have hl : c.lexeme = d.lexeme := congrArg String.ofList h
  have ho := ofLexeme?_lexeme c
  rw [hl, ofLexeme?_lexeme] at ho
  exact (Option.some.inj ho).symm

/-- Two lexemes of one length at one place are the same. -/
theorem IsLongest.isLongestLexeme (h : IsLongest candidates input (some c))
    (hall : ∀ d, d ∈ candidates) : IsLongestLexeme c input where
  starts := by
    rw [Comparator.toList_lexeme]
    exact h.2.1
  longer := by
    intro other hp hne
    rw [Comparator.toList_lexeme] at hp
    rw [Comparator.utf8ByteSize_lexeme, Comparator.utf8ByteSize_lexeme]
    apply Nat.lt_of_le_of_ne (h.2.2 other (hall other) hp)
    intro he
    have hwithin := List.prefix_of_prefix_length_le hp h.2.1 (Nat.le_of_eq he)
    exact hne (Comparator.eq_of_chars_eq (hwithin.eq_of_length he))

theorem IsLongestLexeme.unique (h : IsLongestLexeme c input) (h' : IsLongestLexeme d input) :
    c = d := by
  apply Decidable.byContradiction
  intro hne
  have hlt := h.longer d h'.starts (Ne.symm hne)
  have hlt' := h'.longer c h.starts hne
  omega

theorem longestLexeme?_eq_some_iff (hall : ∀ d, d ∈ candidates) :
    longestLexeme? candidates input = some c ↔ IsLongestLexeme c input := by
  have hl := longestLexeme?_isLongest candidates input
  constructor
  · intro h
    rw [h] at hl
    exact hl.isLongestLexeme hall
  · intro h
    cases hf : longestLexeme? candidates input with
    | none =>
      rw [hf] at hl
      exact absurd (c.toList_lexeme ▸ h.starts) (hl c (hall c))
    | some d =>
      rw [hf] at hl
      rw [(hl.isLongestLexeme hall).unique h]

theorem longestLexeme?_eq_none_iff (hall : ∀ d, d ∈ candidates) :
    longestLexeme? candidates input = none ↔ ∀ c : Comparator, ¬ c.lexeme.toList <+: input := by
  have hl := longestLexeme?_isLongest candidates input
  simp only [Comparator.toList_lexeme]
  constructor
  · intro h c
    rw [h] at hl
    exact hl c (hall c)
  · intro h
    cases hf : longestLexeme? candidates input with
    | none => rfl
    | some d =>
      rw [hf] at hl
      exact absurd hl.2.1 (h d)

theorem mem_table (hp : table.Perm Comparator.lexemes) (c : Comparator) :
    c ∈ table.map Prod.snd :=
  (hp.map Prod.snd).mem_iff.2 c.mem_all

theorem table_eq_map_entry (hp : table.Perm Comparator.lexemes) :
    table = (table.map Prod.snd).map Comparator.entry := by
  rw [List.map_map, ← List.map_id table, List.map_map]
  apply List.map_congr_left
  intro row hr
  rw [hp.mem_iff, Comparator.lexemes_eq] at hr
  obtain ⟨c, -, rfl⟩ := List.mem_map.1 hr
  rfl

/-- What has been read where the comparator has been found. -/
def foundLexeme : Option Comparator → String
  | none => ""
  | some c => c.lexeme

theorem Descent.comparator_reads (candidates : List Comparator) (hb : IsBlanks blanks)
    (hs : Stops isBlank rest) (h : cursor.IsAt text (blanks ++ rest)) :
    ∃ later after, comparator (candidates.map Comparator.entry) text cursor =
        some (.ok (longestLexeme? candidates rest), later) ∧
      rest = (foundLexeme (longestLexeme? candidates rest)).toList ++ after ∧
      cursor.Reaches text after later ∧
      scanLexeme candidates (blanks ++ rest) =
        (longestLexeme? candidates rest).map fun c => (c, after) := by
  have hskip : skipBlanks (blanks ++ rest) = rest := skipBlanks_append hb hs
  have hl := longestLexeme?_isLongest candidates rest
  cases hf : longestLexeme? candidates rest with
  | none =>
    have hscan : scanLexeme candidates (blanks ++ rest) = none := by
      rw [scanLexeme, hskip, hf]
      rfl
    obtain ⟨later, hc, h'⟩ := (comparator_of_none h hscan).of_ok
    rw [hskip] at h'
    exact ⟨later, rest, hc, rfl, h', hscan⟩
  | some c =>
    rw [hf] at hl
    have hscan : scanLexeme candidates (blanks ++ rest) =
        some (c, rest.drop c.chars.length) := by
      rw [scanLexeme, hskip, hf]
      rfl
    obtain ⟨later, hc, h'⟩ := (comparator_of_some h hscan).of_ok
    refine ⟨later, _, hc, ?_, h', hscan⟩
    rw [foundLexeme, c.toList_lexeme]
    exact List.prefix_iff_eq_append.1 hl.2.1 |>.symm

/-- What lies between the blanks and where the cursor stands later can be cut out of the text. -/
theorem Cursor.Faces.read_behind (h : earlier.Faces text (blanks ++ (run ++ rest)))
    (h' : later.Faces text rest) :
    later.now.position = earlier.now.position + utf8Length blanks + utf8Length run ∧
      slice? text (earlier.now.position + utf8Length blanks) later.now.position = some run := by
  obtain ⟨before, ht, hb⟩ := h
  rw [← List.append_assoc] at ht
  have hmiddle := (Cursor.isAt_of_append ht).faces
  rw [utf8Length_append, ← hb] at hmiddle
  exact ⟨hmiddle.position_run h', hmiddle.slice?_run h'⟩

/-- In whatever order the lexemes are tried, the comparator with the longest lexeme is found, and
its lexeme is what has been read behind the blanks. -/
theorem Descent.comparator_longest (hp : table.Perm Comparator.lexemes) (hb : IsBlanks blanks)
    (hs : Stops isBlank rest) (h : cursor.IsAt text (blanks ++ rest)) :
    ∃ found later after, comparator table text cursor = some (.ok found, later) ∧
      (∀ c, found = some c ↔ IsLongestLexeme c rest) ∧
      (found = none ↔ ∀ c : Comparator, ¬ c.lexeme.toList <+: rest) ∧
      rest = (foundLexeme found).toList ++ after ∧ cursor.Reaches text after later ∧
      later.now.position = cursor.now.position + utf8Length blanks +
        (foundLexeme found).utf8ByteSize ∧
      slice? text (cursor.now.position + utf8Length blanks) later.now.position =
        some (foundLexeme found).toList ∧
      scanLexeme (table.map Prod.snd) (blanks ++ rest) = found.map fun c => (c, after) := by
  obtain ⟨later, after, hc, hr, h', hscan⟩ :=
    comparator_reads (table.map Prod.snd) hb hs h
  rw [← table_eq_map_entry hp] at hc
  have hfaces := h.faces
  rw [hr] at hfaces
  obtain ⟨hposition, hslice⟩ := hfaces.read_behind h'.faces
  rw [utf8Length_eq_utf8ByteSize (foundLexeme _).toList, String.ofList_toList] at hposition
  exact ⟨_, later, after, hc, fun c => longestLexeme?_eq_some_iff (mem_table hp),
    longestLexeme?_eq_none_iff (mem_table hp), hr, h', hposition, hslice, hscan⟩

/-- Behind a blank of more than one byte, with the shorter lexemes after the longer ones. -/
theorem Descent.comparator_longest_reversed :
    ∃ later, comparator Comparator.lexemes.reverse "été\u00a0>=5" ⟨⟨5, 0, []⟩, [], []⟩ =
        some (.ok (some .greaterEqual), later) ∧ later.now.position = 9 := by
  have htext : "été\u00a0>=5".toList = ['é', 't', 'é'] ++ (['\u00a0'] ++ ['>', '=', '5']) := rfl
  have hat := Cursor.isAt_of_append htext
  have hstops : Stops isBlank ['>', '=', '5'] := rfl
  obtain ⟨found, later, after, hc, hsome, -, -, -, hposition, -, -⟩ :=
    comparator_longest (List.reverse_perm _) (by decide) hstops hat
  have hfound : found = some .greaterEqual := by
    refine (hsome _).2 ⟨by decide, fun other => ?_⟩
    cases other <;> decide
  subst hfound
  exact ⟨later, hc, hposition⟩

end Eligibility
