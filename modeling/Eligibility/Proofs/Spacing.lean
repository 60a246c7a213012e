import Eligibility.Proofs.Respacing

namespace Eligibility
set_option autoImplicit true

/-- The tokens that a rule text can go on with at a place, the characters that would prolong each of
them, and the place behind it. -/
inductive IsToken : Place → List Char → (Char → Bool) → Place → Prop
  | opening : IsToken .term ['('] (fun _ => false) .term
  | closing : IsToken .link [')'] (fun _ => false) .link
  | name (hn : IsName name) : IsToken .term name isNameChar .comparator
  | comparator (c : Comparator) (hl : place.Leads next) : IsToken place c.chars (· == '=') next
  | literal (hl : IsLiteral text value) : IsToken .literal text isNumberChar .link

/-- A text cut into blanks and tokens, where no token is cut short. -/
inductive IsTokens : Place → List (List Char) → Prop
  | nil : IsTokens place []
  | blanks (hb : IsBlanks blanks) (h : IsTokens place pieces) : IsTokens place (blanks :: pieces)
  | token (ht : IsToken place token more next) (hs : Stops more pieces.flatten)
    (h : IsTokens next pieces) : IsTokens place (token :: pieces)

/-- A piece of a text with what is put in front of it. -/
structure Piece where
  gap : List Char
  chars : List Char

/-- The text as it was. -/
def plainText (pieces : List Piece) : List Char :=
  (pieces.map Piece.chars).flatten

/-- The text with the gaps in front of its pieces and one at its end. -/
def paddedText (pieces : List Piece) (last : List Char) : List Char :=
  pieces.flatMap (fun piece => piece.gap ++ piece.chars) ++ last

/-- Two texts that have the same tokens from a place on, with any blanks between them. -/
inductive SameTokens : Place → List Char → List Char → Prop
  | ended (hb : IsBlanks blanks) (hb' : IsBlanks blanks') : SameTokens place blanks blanks'
  | token (hb : IsBlanks blanks) (hb' : IsBlanks blanks') (ht : IsToken place token more next)
    (hs : Stops more rest) (hs' : Stops more rest') (h : SameTokens next rest rest') :
    SameTokens place (blanks ++ (token ++ rest)) (blanks' ++ (token ++ rest'))

variable {place next : Place} {pieces : List Piece} {last : List Char}
variable {text rest input input' : List Char} {rule : Rule}

theorem Place.Leads.eq (h : place.Leads next) (h' : place.Leads other) : next = other := by
  cases h <;> cases h' <;> rfl

theorem IsToken.head (h : IsToken place token more next) :
    ∃ c tail, token = c :: tail ∧ isBlank c = false := by
  cases h with
  | opening => exact ⟨_, _, rfl, rfl⟩
  | closing => exact ⟨_, _, rfl, rfl⟩
  | name hn =>
    have hs : Stops isBlank (token ++ []) := hn.stops fun _ => not_isBlank_of_isNameChar
    cases token with
    | nil => exact absurd rfl hn.1
    | cons c tail => exact ⟨c, tail, rfl, hs⟩
  | comparator c =>
    cases c <;> exact ⟨_, _, rfl, rfl⟩
  | literal hl =>
    cases hl with
    | text => exact ⟨_, _, rfl, rfl⟩
    | number hne hd =>
      cases token with
      | nil => exact absurd rfl hne
      | cons c tail => exact ⟨c, tail, rfl, not_isBlank_of_isDigit (hd c List.mem_cons_self)⟩

theorem IsToken.blank_ends (h : IsToken place token more next) (hc : isBlank c = true) :
    more c = false := by
  cases h with
  | opening => rfl
  | closing => rfl
  | name => exact not_isNameChar_of_isBlank hc
  | comparator => exact not_equals_of_isBlank hc
  | literal => exact not_isNumberChar_of_isBlank hc

theorem plainText_cons (piece : Piece) (pieces : List Piece) :
    plainText (piece :: pieces) = piece.chars ++ plainText pieces :=
  rfl

theorem paddedText_cons (piece : Piece) (pieces : List Piece) (last : List Char) :
    paddedText (piece :: pieces) last = piece.gap ++ (piece.chars ++ paddedText pieces last) := by
  simp only [paddedText, List.flatMap_cons, List.append_assoc]

theorem stops_paddedText (hg : ∀ piece ∈ pieces, IsBlanks piece.gap) (hl : IsBlanks last)
    (hb : ∀ c, isBlank c = true → more c = false) (hs : Stops more (plainText pieces)) :
    Stops more (paddedText pieces last) := by
  induction pieces with
  | nil =>
    have hend : Stops more (last ++ []) := hl.stops hb trivial
    rwa [List.append_nil] at hend
  | cons piece pieces ih =>
    obtain ⟨gap, chars⟩ := piece
    rw [List.forall_mem_cons] at hg
    rw [paddedText_cons]
    apply hg.1.stops hb
    cases chars with
    | nil => exact ih hg.2 hs
    | cons => exact hs

theorem SameTokens.blanks (h : SameTokens place input input') (hl : IsBlanks left)
    (hl' : IsBlanks left') : SameTokens place (left ++ input) (left' ++ input') := by
  cases h with
  | ended hb hb' => exact .ended (hl.append hb) (hl'.append hb')
  | token hb hb' ht hs hs' h =>
    rw [← List.append_assoc, ← List.append_assoc left']
    exact .token (hl.append hb) (hl'.append hb') ht hs hs' h

theorem IsTokens.padded (h : IsTokens place (pieces.map Piece.chars))
    (hg : ∀ piece ∈ pieces, IsBlanks piece.gap) (hl : IsBlanks last) :
    SameTokens place (plainText pieces) (paddedText pieces last) := by
  induction pieces generalizing place with
  | nil => exact .ended IsBlanks.nil hl
  | cons piece pieces ih =>
    obtain ⟨gap, chars⟩ := piece
    rw [List.forall_mem_cons] at hg
    rw [paddedText_cons, plainText_cons]
    cases h with
    | blanks hb h =>
      rw [← List.append_assoc]
      exact (ih h hg.2).blanks hb (hg.1.append hb)
    | token ht hs h =>
      have hs' := stops_paddedText hg.2 hl (fun _ => ht.blank_ends) hs
      exact .token IsBlanks.nil hg.1 ht hs hs' (ih h hg.2)

theorem IsToken.skipBlanks_append (h : IsToken place token more next) (hb : IsBlanks blanks)
    (rest : List Char) : skipBlanks (blanks ++ (token ++ rest)) = token ++ rest := by
  obtain ⟨c, tail, rfl, hc⟩ := h.head
  have hs : Stops isBlank (c :: tail ++ rest) := hc
  exact Eligibility.skipBlanks_append hb hs

theorem SameTokens.head (h : SameTokens place input input') :
    SameHead (fun _ _ => True) False (skipBlanks input) (skipBlanks input') := by
  cases h with
  | ended hb hb' =>
    rw [skipBlanks_blanks hb, skipBlanks_blanks hb']
    exact .nil trivial
  | token hb hb' ht =>
    rw [ht.skipBlanks_append hb, ht.skipBlanks_append hb']
    obtain ⟨c, tail, rfl, -⟩ := ht.head
    exact .cons trivial

theorem SameTokens.opening (h : SameTokens .term input input')
    (hi : skipBlanks input = '(' :: rest) (hi' : skipBlanks input' = '(' :: rest') :
    SameTokens .term rest rest' := by
  cases h with
  | ended hb =>
    rw [skipBlanks_blanks hb] at hi
    cases hi
  | @token _ _ _ token _ _ after _ hb hb' ht hs hs' h =>
    rw [ht.skipBlanks_append hb] at hi
    rw [ht.skipBlanks_append hb'] at hi'
    cases ht with
    | opening =>
      cases hi
      cases hi'
      exact h
    | name hn =>
      have hstop : Stops (· == '(') (token ++ after) := hn.stops fun _ => isNameChar_ne (by decide)
      rw [hi] at hstop
      cases hstop
    | comparator c hl => cases hl

theorem SameTokens.closing (h : SameTokens .link input input')
    (hi : skipBlanks input = ')' :: rest) (hi' : skipBlanks input' = ')' :: rest') :
    SameTokens .link rest rest' := by
  cases h with
  | ended hb =>
    rw [skipBlanks_blanks hb] at hi
    cases hi
  | @token _ _ _ _ _ _ after _ hb hb' ht hs hs' h =>
    rw [ht.skipBlanks_append hb] at hi
    rw [ht.skipBlanks_append hb'] at hi'
    cases ht with
    | closing =>
      cases hi
      cases hi'
      exact h
    | comparator c hl =>
      have hstop : Stops (· == ')') (c.chars ++ after) :=
        c.stops_chars (by intro c; cases c <;> exact rfl)
      rw [hi] at hstop
      cases hstop

theorem SameTokens.name (h : SameTokens .term input input') :
    Agree (SameTokens .comparator) (fun _ _ => True) (fun _ => True) (scanName input)
      (scanName input') := by
  cases h with
  | ended hb =>
    rw [← scanName_skipBlanks, skipBlanks_blanks hb]
    exact .excused trivial
  | token hb hb' ht hs hs' h =>
    cases ht with
    | opening =>
      rw [← scanName_skipBlanks, IsToken.opening.skipBlanks_append hb]
      exact .excused trivial
    | name hn =>
      rw [scanName_append hb hn hs, scanName_append hb' hn hs']
      exact .read h
    | comparator c hl => cases hl

theorem SameTokens.comparator (hl : place.Leads next) (h : SameTokens place input input') :
    Option.Rel (fun found found' => found.1 = found'.1 ∧ SameTokens next found.2 found'.2)
      (scanComparator input) (scanComparator input') := by
  cases h with
  | ended hb hb' =>
    rw [scanComparator_blanks hb, scanComparator_blanks hb']
    exact .none
  | token hb hb' ht hs hs' h =>
    cases ht with
    | opening => cases hl
    | closing =>
      rw [List.singleton_append, List.singleton_append, scanComparator_close hb,
        scanComparator_close hb']
      exact .none
    | name => cases hl
    | comparator c hl' =>
      obtain rfl := hl.eq hl'
      rw [scanComparator_append hb hs, scanComparator_append hb' hs']
      exact .some ⟨rfl, h⟩
    | literal => cases hl

theorem SameTokens.literal (h : SameTokens .literal input input') :
    Agree (SameTokens .link) (fun _ _ => True) (fun _ => True) (scanLiteral input)
      (scanLiteral input') := by
  cases h with
  | ended hb =>
    rw [← scanLiteral_skipBlanks, skipBlanks_blanks hb]
    exact .excused trivial
  | token hb hb' ht hs hs' h =>
    cases ht with
    | literal hl =>
      rw [scanLiteral_append hb hl hs, scanLiteral_append hb' hl hs']
      exact .read h
    | comparator c hl => cases hl

/-- Texts with the same tokens, of which only what is accepted is compared. -/
def tokenPairing : Pairing where
  inputs := SameTokens
  unread _ _ := True
  excused _ := True
  endExcused := False
  excused_end := False.elim
  unread_link _ := trivial
  head := SameTokens.head
  opening := SameTokens.opening
  closing := SameTokens.closing
  name := SameTokens.name
  comparator hl h := .inr (h.comparator hl)
  literal := SameTokens.literal

/-- The text can be cut into blanks and whole tokens from the place on. -/
def IsCut (place : Place) (text : List Char) : Prop :=
  ∃ pieces, IsTokens place pieces ∧ text = pieces.flatten

theorem IsCut.skip (h : IsCut place rest) (hb : IsBlanks blanks) :
    IsCut place (blanks ++ rest) := by
  obtain ⟨pieces, hp, rfl⟩ := h
  exact ⟨blanks :: pieces, .blanks hb hp, rfl⟩

theorem IsCut.cons (ht : IsToken place token more next) (hs : Stops more rest)
    (h : IsCut next rest) : IsCut place (token ++ rest) := by
  obtain ⟨pieces, hp, rfl⟩ := h
  exact ⟨token :: pieces, .token ht hs hp, rfl⟩

theorem IsComparison.isCut (h : IsComparison text rule) (hs : Stops isNumberChar rest)
    (hr : IsCut .link rest) : IsCut .term (text ++ rest) := by
  cases h with
  | @intro blanks name blanks' blanks'' literal value c hb hn hb' hword hb'' hl =>
    have hne : blanks' ++ c.chars ≠ [] := fun he => c.chars_ne_nil (List.append_eq_nil_iff.1 he).2
    have hname : Stops isNameChar (blanks' ++ c.chars ++ (blanks'' ++ (literal ++ rest))) :=
      hword.prolong hne
    have hlexeme : Stops (· == '=') (blanks'' ++ (literal ++ rest)) :=
      hb''.stops (fun _ => not_equals_of_isBlank) hl.stops_equals
    have hliteral := (IsCut.cons (.literal hl) hs hr).skip hb''
    have hcomparator := (IsCut.cons (.comparator c .comparator) hlexeme hliteral).skip hb'
    rw [List.append_assoc] at hname
    simp only [List.append_assoc]
    exact (IsCut.cons (.name hn) hname hcomparator).skip hb

theorem stops_false (rest : List Char) : Stops (fun _ => false) rest := by
  cases rest with
  | nil => trivial
  | cons => rfl

mutual

theorem IsExpression.isCut {text rest : List Char} {rule : Rule}
    (hs : Stops isNumberChar rest) (hr : IsCut .link rest) :
    IsExpression text rule nesting → IsCut .term (text ++ rest)
  | .term h => h.isCut hs hr
  | .chain c hl hb h => by
    have hterm := h.isCut hs hr
    have hconnective := (IsCut.cons (.comparator c .connective) h.stops_equals hterm).skip hb
    simp only [List.append_assoc]
    exact hl.isCut (stops_connective hb c) hconnective

theorem IsTerm.isCut {text rest : List Char} {rule : Rule}
    (hs : Stops isNumberChar rest) (hr : IsCut .link rest) :
    IsTerm text rule nesting → IsCut .term (text ++ rest)
  | .comparison h => h.isCut hs hr
  | .enclosed hb h hb' => by
    have hclose := (IsCut.cons .closing (stops_false rest) hr).skip hb'
    have hparenthesis : Stops isNumberChar ([')'] ++ rest) := rfl
    have hinside := h.isCut (hb'.stops (fun _ => not_isNumberChar_of_isBlank) hparenthesis) hclose
    have hopen := (IsCut.cons .opening (stops_false _) hinside).skip hb
    simp only [List.append_assoc, List.cons_append, List.nil_append]
    exact hopen

end

/-- An accepted text consists of blanks and whole tokens. -/
theorem Derives.isCut (h : Derives text rule) : IsCut .term text := by
  obtain ⟨-, nesting, -, expression, blanks, rfl, he, hb⟩ := h
  have hend : IsCut .link (blanks ++ []) := IsCut.skip ⟨[], .nil, rfl⟩ hb
  have hs : Stops isNumberChar (blanks ++ []) :=
    hb.stops (fun _ => not_isNumberChar_of_isBlank) trivial
  have hcut := he.isCut hs hend
  rwa [List.append_nil] at hcut

theorem IsTokens.parse_padded (ht : IsTokens .term (pieces.map Piece.chars))
    (hg : ∀ piece ∈ pieces, IsBlanks piece.gap) (hl : IsBlanks last)
    (h : Rule.parse (String.ofList (plainText pieces)) = .ok rule) :
    Rule.parse (String.ofList (paddedText pieces last)) = .ok rule := by
  rw [Rule.parse_eq_ok_scan, String.toList_ofList] at h ⊢
  have hi : tokenPairing.inputs .term (plainText pieces) (paddedText pieces last) :=
    ht.padded hg hl
  exact ((scanRule_agree hi).1 rule h).resolve_left id

/-- Blanks outside of quotes only separate tokens. Other blanks in their place leave the rule of a
text as it is and move its error along with the text, and blanks can be put between any two tokens
of an accepted text and at its ends. -/
theorem Rule.parse_respaced :
    (∀ parts, IsRespacing false parts →
      (∀ rule, parse (String.ofList (oldText parts)) = .ok rule →
        parse (String.ofList (newText parts)) = .ok rule) ∧
      ∀ position reason, parse (String.ofList (oldText parts)) = .error ⟨position, reason⟩ →
        ∃ front back, parts = front ++ back ∧
          position = (String.ofList (oldText front)).utf8ByteSize ∧
          parse (String.ofList (newText parts)) =
            .error ⟨(String.ofList (newText front)).utf8ByteSize, reason⟩) ∧
    ∀ text rule, parse text = .ok rule →
      (∃ pieces, IsTokens .term pieces ∧ text = String.ofList pieces.flatten) ∧
      ∀ pieces last, text = String.ofList (plainText pieces) →
        IsTokens .term (pieces.map Piece.chars) → (∀ piece ∈ pieces, IsBlanks piece.gap) →
        IsBlanks last → parse (String.ofList (paddedText pieces last)) = .ok rule := by
  refine ⟨?respaced, ?padded⟩
  case respaced =>
    intro parts h
    exact ⟨fun _ hp => h.parse_ok hp, fun _ _ hp => h.parse_error hp⟩
  case padded =>
    intro text rule h
    constructor
    · obtain ⟨pieces, hp, he⟩ := (Rule.derives_of_parse h).isCut
      exact ⟨pieces, hp, by rw [← he, String.ofList_toList]⟩
    · rintro pieces last rfl ht hg hl
      exact ht.parse_padded hg hl h

/-- Blanks that UTF-8 writes in one byte give way to one of three bytes, those between quotes stay,
and a text without blanks gets some. -/
theorem Rule.parse_respaced_wide :
    let kept := fun text : String => text.toList.map Part.kept
    let wide := [Part.exchanged [' '] ['\u3000']]
    let failing := kept "größe" ++ wide ++ kept "> 5 AN"
    let rule := Rule.operand "größe" .equal (.text "a b")
    let comparison := Rule.operand "x" .greater (.number 5)
    parse "größe = 'a b'" = .ok rule ∧ parse "größe\u3000= 'a b'" = .ok rule ∧
      parse "größe > 5 AN" = .error ⟨12, .trailing 'A'⟩ ∧
      (∃ front back, failing = front ++ back ∧
        12 = (String.ofList (oldText front)).utf8ByteSize ∧
        parse "größe\u3000> 5 AN" =
          .error ⟨(String.ofList (newText front)).utf8ByteSize, .trailing 'A'⟩) ∧
      parse "(x>5)" = .ok comparison ∧ parse "(\tx> \u20035\n) " = .ok comparison := by
  intro kept wide failing rule comparison
  let pieces : List Piece := [⟨[], ['(']⟩, ⟨['\t'], ['x']⟩, ⟨[], ['>']⟩,
    ⟨[' ', '\u2003'], ['5']⟩, ⟨['\n'], [')']⟩]
  have haccepted : parse "größe = 'a b'" = .ok rule := by decide +kernel
  have hfailing : parse "größe > 5 AN" = .error ⟨12, .trailing 'A'⟩ := by decide +kernel
  have hcomparison : parse "(x>5)" = .ok comparison := by decide +kernel
  have hname : IsName ['x'] := by decide
  have hnumber : IsLiteral ['5'] (.number 5) :=
    .number nofun (List.all_eq_true.1 rfl) (by decide)
  have htokens : IsTokens .term (pieces.map Piece.chars) :=
    .token .opening rfl (.token (.name hname) rfl (.token (.comparator .greater .comparator) rfl
      (.token (.literal hnumber) rfl (.token .closing trivial .nil))))
  have hgaps : ∀ piece ∈ pieces, IsBlanks piece.gap := by decide
  refine ⟨haccepted, ?_, hfailing, ?_, hcomparison, ?_⟩
  · exact (parse_respaced.1 (kept "größe" ++ wide ++ kept "= 'a b'") (by decide +kernel)).1 rule
      haccepted
  · exact (parse_respaced.1 failing (by decide +kernel)).2 12 _ hfailing
  · exact (parse_respaced.2 "(x>5)" comparison hcomparison).2 pieces [' '] rfl htokens hgaps
      IsBlanks.space

end Eligibility
