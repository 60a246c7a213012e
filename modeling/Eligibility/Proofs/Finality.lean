import Eligibility.Proofs.FaultSites
import Eligibility.Proofs.TextPairing

namespace Eligibility
set_option autoImplicit true

/-- The last character of the text is a blank, so that no token goes on behind it. -/
def EndsBlank (text : List Char) : Prop :=
  ∃ front c, text = front ++ [c] ∧ isBlank c = true

variable {text left right rest more : List Char}

theorem EndsBlank.of_append (h : EndsBlank (left ++ right)) (hne : right ≠ []) :
    EndsBlank right := by
  obtain ⟨front, c, he, hc⟩ := h
  obtain ⟨init, last, rfl⟩ := (List.eq_nil_or_concat' right).resolve_left hne
  rw [← List.append_assoc] at he
  obtain ⟨-, hlast⟩ := List.append_inj' he rfl
  exact ⟨init, c, by rw [hlast], hc⟩

theorem EndsBlank.tail (h : EndsBlank (c :: rest)) (hc : isBlank c = false) : EndsBlank rest := by
  cases rest with
  | nil =>
    obtain ⟨front, d, he, hd⟩ := h
    have hsingle : [] ++ [c] = front ++ [d] := he
    obtain ⟨-, hlast⟩ := List.append_inj' hsingle rfl
    rw [← List.singleton_inj.1 hlast, hc] at hd
    cases hd
  | cons d rest =>
    have hsplit : EndsBlank ([c] ++ d :: rest) := h
    exact hsplit.of_append (List.cons_ne_nil _ _)

theorem EndsBlank.skipBlanks (h : EndsBlank text) (hne : skipBlanks text ≠ []) :
    EndsBlank (skipBlanks text) := by
  obtain ⟨blanks, -, hi⟩ := exists_skipBlanks text
  rw [hi] at h
  exact h.of_append hne

theorem skipBlanks_append_of_ne_nil (hne : skipBlanks text ≠ []) (more : List Char) :
    skipBlanks (text ++ more) = skipBlanks text ++ more := by
  have he : (text.dropWhile isBlank).isEmpty = false := List.isEmpty_eq_false_iff.2 hne
  rw [skipBlanks, List.dropWhile_append, he]
  rfl

/-- A literal that ends within the text is read alike whatever follows the text. -/
theorem scanLiteral_quoted_append (h : EndsBlank ('\'' :: rest)) (more : List Char) :
    Agree (fun input input' => EndsBlank input ∧ input' = input ++ more)
      (fun unread unread' => unread' = unread ++ more)
      (fun fault => fault.rest = [] ∨ fault.reason = .unterminatedText)
      (scanLiteral ('\'' :: rest)) (scanLiteral ('\'' :: (rest ++ more))) := by
  cases hd : rest.dropWhile (· != '\'') with
  | nil =>
    rw [scanLiteral_of_open hd]
    exact .excused (.inr rfl)
  | cons q after =>
    obtain ⟨hq, hrest⟩ := takeWhile_quote hd
    generalize rest.takeWhile (· != '\'') = quoted at hq hrest
    subst hrest
    have hsplit : EndsBlank ('\'' :: quoted ++ '\'' :: after) := h
    have hafter : EndsBlank ('\'' :: after) := hsplit.of_append (List.cons_ne_nil _ _)
    have hs (tail : List Char) :
        scanLiteral ('\'' :: (quoted ++ '\'' :: tail)) = .ok (.text (String.ofList quoted), tail) :=
      scanLiteral_of_quote rfl hq
    rw [List.append_assoc, List.cons_append, hs, hs]
    exact .read ⟨hafter.tail rfl, rfl⟩

/-- A text that ends with a blank goes with the same text and more behind it. -/
def extension (more : List Char) : TextPairing where
  inputs input input' := EndsBlank input ∧ input' = input ++ more
  unread rest rest' := rest' = rest ++ more
  excused fault := fault.rest = [] ∨ fault.reason = .unterminatedText
  endExcused := True
  excused_end _ _ := .inl rfl
  unread_of_inputs h := h.2
  skip := by
    rintro input _ ⟨h, rfl⟩
    by_cases hne : skipBlanks input = []
    · exact .inl ⟨trivial, hne⟩
    · exact .inr ⟨h.skipBlanks hne, skipBlanks_append_of_ne_nil hne more⟩
  step := by
    rintro input _ ⟨h, rfl⟩
    cases input with
    | nil =>
      obtain ⟨front, c, he, -⟩ := h
      exact absurd he.symm (by simp)
    | cons c rest =>
      cases hc : isBlank c with
      | true => exact .blank hc hc
      | false => exact .char hc fun _ => ⟨h.tail hc, rfl⟩
  quoted := by
    rintro rest _ ⟨h, he⟩
    rw [List.tail_eq_of_cons_eq he]
    exact scanLiteral_quoted_append h more

/-- A fault found before the end of a text that ends with a blank is the fault of every longer text,
at the same place, unless it is a text literal that might still be closed. -/
theorem Rule.parse_error_final {text more : String} (hb : EndsBlank text.toList)
    (h : parse text = .error ⟨position, reason⟩) (hp : position < text.utf8ByteSize)
    (hr : reason ≠ .unterminatedText) : parse (text ++ more) = .error ⟨position, reason⟩ := by
  obtain ⟨rest, hs, rfl⟩ := exists_fault h
  have hinputs : (extension more.toList).pairing.inputs .term text.toList (text ++ more).toList :=
    ⟨hb, String.toList_append⟩
  rcases (scanRule_agree hinputs).2 _ hs with (hend | hopen) | ⟨unread, hs', hunread⟩
  · obtain rfl : rest = [] := hend
    rw [utf8Length_eq_utf8ByteSize, String.ofList_toList] at hp
    exact absurd hp (Nat.lt_irrefl _)
  · exact absurd hopen hr
  · obtain rfl : unread = rest ++ more.toList := hunread
    rw [parse_of_fault hs', String.toList_append, utf8Length_append, utf8Length_append,
      Nat.add_sub_add_right]

/-- Behind the blank neither a connective nor a number can be completed, and the parenthesis that is
one too many stays so. -/
theorem Rule.parse_error_final_lookahead :
    let nested := String.ofList (List.replicate 101 '(' ++ [' '])
    parse "age > 5 AN " = .error ⟨8, .trailing 'A'⟩ ∧
      parse ("age > 5 AN " ++ "D x = 1") = .error ⟨8, .trailing 'A'⟩ ∧
      parse "größe = 99999999999999999999 " = .error
        ⟨10, .numberOutOfRange "99999999999999999999"⟩ ∧
      parse ("größe = 99999999999999999999 " ++ "OR a = '") = .error
        ⟨10, .numberOutOfRange "99999999999999999999"⟩ ∧
      parse nested = .error ⟨100, .nestedTooDeeply⟩ ∧
      parse (nested ++ "a = 1)") = .error ⟨100, .nestedTooDeeply⟩ := by
  intro nested
  have hblank : ∀ front : List Char, EndsBlank (front ++ [' ']) :=
    fun front => ⟨front, ' ', rfl, by decide⟩
  have hconnective : parse "age > 5 AN " = .error ⟨8, .trailing 'A'⟩ := by decide +kernel
  have hnumber : parse "größe = 99999999999999999999 " = .error
      ⟨10, .numberOutOfRange "99999999999999999999"⟩ := by decide +kernel
  have hnested : parse nested = .error ⟨100, .nestedTooDeeply⟩ := by decide +kernel
  refine ⟨hconnective, ?_, hnumber, ?_, hnested, ?_⟩
  · exact parse_error_final (hblank "age > 5 AN".toList) hconnective (by decide) nofun
  · exact parse_error_final (hblank "größe = 99999999999999999999".toList) hnumber (by decide) nofun
  · have hb : EndsBlank nested.toList := by
      rw [String.toList_ofList]
      exact hblank _
    exact parse_error_final hb hnested (by decide) nofun

end Eligibility
