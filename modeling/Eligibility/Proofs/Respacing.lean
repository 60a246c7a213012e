import Eligibility.Proofs.FaultSites
import Eligibility.Proofs.TextPairing

namespace Eligibility
set_option autoImplicit true

/-- A part of a text that is to be spaced in another way: a character that stays, or a run of
characters and the run that takes its place. -/
inductive Part where
  | kept (c : Char)
  | exchanged (old new : List Char)

def Part.old : Part → List Char
  | kept c => [c]
  | exchanged old _ => old

def Part.new : Part → List Char
  | kept c => [c]
  | exchanged _ new => new

/-- The text before the exchange. -/
def oldText (parts : List Part) : List Char :=
  parts.flatMap Part.old

/-- The text after the exchange. -/
def newText (parts : List Part) : List Char :=
  parts.flatMap Part.new

def IsBlankRun (run : List Char) : Prop :=
  run ≠ [] ∧ IsBlanks run

/-- Runs of blanks give way to runs of blanks, none of them empty, and only where the number of
quotes before them is even; the flag says whether it is odd already. -/
def IsRespacing : Bool → List Part → Prop
  | _, [] => True
  | quoted, .kept c :: parts => IsRespacing (quoted ^^ (c == '\'')) parts
  | quoted, .exchanged old new :: parts =>
    quoted = false ∧ IsBlankRun old ∧ IsBlankRun new ∧ IsRespacing quoted parts

instance decidableIsBlankRun (run : List Char) : Decidable (IsBlankRun run) :=
  inferInstanceAs (Decidable (run ≠ [] ∧ IsBlanks run))

instance decidableIsRespacing : ∀ quoted parts, Decidable (IsRespacing quoted parts)
  | _, [] => isTrue trivial
  | quoted, .kept c :: parts => decidableIsRespacing (quoted ^^ (c == '\'')) parts
  | quoted, .exchanged old new :: parts =>
    have := decidableIsRespacing quoted parts
    inferInstanceAs (Decidable (quoted = false ∧ IsBlankRun old ∧ IsBlankRun new ∧
      IsRespacing quoted parts))

variable {parts back : List Part} {c : Char} {text rest rest' : List Char}

@[simp] theorem oldText_kept (c : Char) (parts : List Part) :
    oldText (.kept c :: parts) = c :: oldText parts :=
  rfl

@[simp] theorem newText_kept (c : Char) (parts : List Part) :
    newText (.kept c :: parts) = c :: newText parts :=
  rfl

@[simp] theorem oldText_exchanged (old new : List Char) (parts : List Part) :
    oldText (.exchanged old new :: parts) = old ++ oldText parts :=
  rfl

@[simp] theorem newText_exchanged (old new : List Char) (parts : List Part) :
    newText (.exchanged old new :: parts) = new ++ newText parts :=
  rfl

theorem oldText_append (front back : List Part) :
    oldText (front ++ back) = oldText front ++ oldText back :=
  List.flatMap_append

theorem newText_append (front back : List Part) :
    newText (front ++ back) = newText front ++ newText back :=
  List.flatMap_append

theorem IsBlankRun.cons (h : IsBlankRun run) :
    ∃ c tail, run = c :: tail ∧ isBlank c = true := by
  obtain ⟨hne, hb⟩ := h
  cases run with
  | nil => exact absurd rfl hne
  | cons c tail => exact ⟨c, tail, rfl, hb c List.mem_cons_self⟩

theorem IsRespacing.kept (h : IsRespacing false (.kept c :: parts)) (hc : c ≠ '\'') :
    IsRespacing false parts := by
  rwa [IsRespacing, beq_eq_false_iff_ne.2 hc] at h

/-- What the two texts have left after the same number of parts. -/
def LeftOver (parts : List Part) (input input' : List Char) : Prop :=
  ∃ back, back <:+ parts ∧ input = oldText back ∧ input' = newText back

/-- What they have left where no quote is open. -/
def RespacedRest (parts : List Part) (input input' : List Char) : Prop :=
  ∃ back, back <:+ parts ∧ IsRespacing false back ∧ input = oldText back ∧ input' = newText back

theorem RespacedRest.mono (h : RespacedRest back text text') (hs : back <:+ parts) :
    RespacedRest parts text text' := by
  obtain ⟨rest, hr, h⟩ := h
  exact ⟨rest, hr.trans hs, h⟩

theorem IsRespacing.skip (h : IsRespacing false parts) :
    RespacedRest parts (skipBlanks (oldText parts)) (skipBlanks (newText parts)) := by
  induction parts with
  | nil => exact ⟨[], List.suffix_rfl, h, rfl, rfl⟩
  | cons part parts ih =>
    have hs : parts <:+ part :: parts := List.suffix_cons part parts
    cases part with
    | kept c =>
      simp only [oldText_kept, newText_kept]
      by_cases hc : isBlank c = true
      · have hq : c ≠ '\'' := by
          rintro rfl
          cases hc
        rw [skipBlanks, skipBlanks, List.dropWhile_cons_of_pos hc, List.dropWhile_cons_of_pos hc]
        exact (ih (h.kept hq)).mono hs
      · rw [skipBlanks, skipBlanks, List.dropWhile_cons_of_neg hc, List.dropWhile_cons_of_neg hc]
        exact ⟨_, List.suffix_rfl, h, rfl, rfl⟩
    | exchanged old new =>
      obtain ⟨-, ho, hn, h⟩ := h
      simp only [oldText_exchanged, newText_exchanged, ho.2.skip, hn.2.skip]
      exact (ih h).mono hs

theorem IsRespacing.step (h : IsRespacing false back) (hs : back <:+ parts) :
    SameStep (RespacedRest parts) (oldText back) (newText back) := by
  cases back with
  | nil => exact .nil
  | cons part back =>
    cases part with
    | kept c =>
      cases hc : isBlank c with
      | true => exact .blank hc hc
      | false =>
        have hback : back <:+ parts := (List.suffix_cons _ _).trans hs
        exact .char hc fun hq => ⟨back, hback, h.kept hq, rfl, rfl⟩
    | exchanged old new =>
      obtain ⟨-, ho, hn, -⟩ := h
      obtain ⟨c, tail, rfl, hc⟩ := ho.cons
      obtain ⟨c', tail', rfl, hc'⟩ := hn.cons
      exact .blank hc hc'

/-- Between quotes nothing is exchanged. -/
theorem IsRespacing.inside (h : IsRespacing true parts) :
    ('\'' ∉ oldText parts ∧ newText parts = oldText parts) ∨
      ∃ inner after after', '\'' ∉ inner ∧ oldText parts = inner ++ '\'' :: after ∧
        newText parts = inner ++ '\'' :: after' ∧ RespacedRest parts after after' := by
  induction parts with
  | nil => exact .inl ⟨List.not_mem_nil, rfl⟩
  | cons part parts ih =>
    have hs : parts <:+ part :: parts := List.suffix_cons part parts
    cases part with
    | exchanged => exact nomatch h.1
    | kept c =>
      rw [oldText_kept, newText_kept]
      by_cases hq : c = '\''
      · subst hq
        exact .inr ⟨[], _, _, List.not_mem_nil, rfl, rfl, parts, hs, h, rfl, rfl⟩
      · rw [IsRespacing, beq_eq_false_iff_ne.2 hq] at h
        rcases ih h with ⟨hn, he⟩ | ⟨inner, after, after', hn, ho, hw, hr⟩
        · exact .inl ⟨List.not_mem_cons_of_ne_of_not_mem (Ne.symm hq) hn, by rw [he]⟩
        · refine .inr ⟨c :: inner, after, after', ?_, by rw [ho]; rfl, by rw [hw]; rfl, hr.mono hs⟩
          exact List.not_mem_cons_of_ne_of_not_mem (Ne.symm hq) hn

theorem IsRespacing.quoted (h : IsRespacing false back) (hs : back <:+ parts)
    (ho : '\'' :: rest = oldText back) (hn : '\'' :: rest' = newText back) :
    Agree (RespacedRest parts) (LeftOver parts) (fun _ => False)
      (scanLiteral ('\'' :: rest)) (scanLiteral ('\'' :: rest')) := by
  have hunread : LeftOver parts ('\'' :: rest) ('\'' :: rest') := ⟨back, hs, ho, hn⟩
  cases back with
  | nil => cases ho
  | cons part back =>
    have hback : back <:+ parts := (List.suffix_cons part back).trans hs
    cases part with
    | exchanged old new =>
      obtain ⟨-, hold, -, -⟩ := h
      obtain ⟨c, tail, rfl, hc⟩ := hold.cons
      rw [← (List.cons.inj ho).1] at hc
      cases hc
    | kept c =>
      rw [oldText_kept] at ho
      rw [newText_kept] at hn
      obtain ⟨rfl, rfl⟩ := List.cons.inj ho
      obtain ⟨-, rfl⟩ := List.cons.inj hn
      rcases IsRespacing.inside h with ⟨hq, he⟩ | ⟨inner, after, after', hq, ho, hn, hr⟩
      · rw [he] at hunread ⊢
        rw [scanLiteral_of_no_quote hq]
        exact .fault hunread
      · rw [ho, hn, scanLiteral_of_quote rfl hq, scanLiteral_of_quote rfl hq]
        exact .read (hr.mono hback)

/-- Two texts that differ in their blanks outside of quotes go together. -/
def respacing (parts : List Part) : TextPairing where
  inputs := RespacedRest parts
  unread := LeftOver parts
  excused _ := False
  endExcused := False
  excused_end := False.elim
  unread_of_inputs := by
    rintro _ _ ⟨back, hs, -, ho, hn⟩
    exact ⟨back, hs, ho, hn⟩
  skip := by
    rintro _ _ ⟨back, hs, h, rfl, rfl⟩
    exact .inr (h.skip.mono hs)
  step := by
    rintro _ _ ⟨back, hs, h, rfl, rfl⟩
    exact h.step hs
  quoted := by
    rintro rest rest' ⟨back, hs, h, ho, hn⟩
    exact h.quoted hs ho hn

theorem IsRespacing.inputs (h : IsRespacing false parts) :
    (respacing parts).pairing.inputs .term (oldText parts) (newText parts) :=
  ⟨parts, List.suffix_rfl, h, rfl, rfl⟩

theorem IsRespacing.parse_ok (h : IsRespacing false parts)
    (hp : Rule.parse (String.ofList (oldText parts)) = .ok rule) :
    Rule.parse (String.ofList (newText parts)) = .ok rule := by
  rw [Rule.parse_eq_ok_scan, String.toList_ofList] at hp ⊢
  exact ((scanRule_agree h.inputs).1 rule hp).resolve_left id

theorem IsRespacing.parse_error (h : IsRespacing false parts)
    (hp : Rule.parse (String.ofList (oldText parts)) = .error ⟨position, reason⟩) :
    ∃ front back, parts = front ++ back ∧
      position = (String.ofList (oldText front)).utf8ByteSize ∧
      Rule.parse (String.ofList (newText parts)) =
        .error ⟨(String.ofList (newText front)).utf8ByteSize, reason⟩ := by
  obtain ⟨rest, hs, rfl⟩ := Rule.exists_fault hp
  rw [String.toList_ofList] at hs
  obtain ⟨rest', hs', back, ⟨front, hparts⟩, ho, hn⟩ :=
    ((scanRule_agree h.inputs).2 _ hs).resolve_left id
  rw [← String.toList_ofList (l := newText parts)] at hs'
  obtain rfl : rest = oldText back := ho
  refine ⟨front, back, hparts.symm, ?_, ?_⟩
  · rw [String.toList_ofList, ← hparts, oldText_append, utf8Length_append, Nat.add_sub_cancel,
      utf8Length_eq_utf8ByteSize]
  · rw [Rule.parse_of_fault hs', String.toList_ofList, hn, ← hparts, newText_append,
      utf8Length_append, Nat.add_sub_cancel, utf8Length_eq_utf8ByteSize]

end Eligibility
