import Eligibility.Proofs.JsonGrammar

namespace Eligibility
set_option autoImplicit true

/-- What stands between the quotes of a string, piece by piece. -/
inductive IsUnits : List Char → List Nat → Prop
  | nil : IsUnits [] []
  | cons (hp : IsPiece piece unit) (h : IsUnits raw units) : IsUnits (piece ++ raw) (unit :: units)

/-- The texts of a token, those of a string with half of a surrogate pair included. -/
inductive IsLooseToken : List Char → Token → Prop
  | strict (h : IsJsonToken text token) : IsLooseToken text token
  | half (h : IsUnits raw units) (hn : textOfUnits? units = none) :
    IsLooseToken ('"' :: (raw ++ ['"'])) (.text none)

/-- A run of tokens as in `IsJsonRun`. -/
inductive IsLooseRun : List Char → List Token → Prop
  | nil (hb : ∀ c ∈ blanks, isJsonBlank c = true) : IsLooseRun blanks []
  | cons (hb : ∀ c ∈ blanks, isJsonBlank c = true) (ht : IsLooseToken text token)
    (hn : ∀ n, token = .numeral n → Stops isNumeralChar rest) (h : IsLooseRun rest tokens) :
    IsLooseRun (blanks ++ (text ++ rest)) (token :: tokens)

variable {raw input rest : List Char} {units : List Nat} {tokens : List Token}
variable {token : Token}

theorem IsUnits.scanUnits_append (h : IsUnits raw units) (rest : List Char) :
    scanUnits (raw ++ '"' :: rest) = some (units, rest) := by
  induction h with
  | nil => rfl
  | cons hp h ih =>
    rw [List.append_assoc, hp.scanUnits_append, ih]
    rfl

theorem isUnits_of_scanUnits (h : scanUnits input = some (units, rest)) :
    ∃ raw, IsUnits raw units ∧ input = raw ++ '"' :: rest := by
  induction units generalizing input with
  | nil =>
    obtain ⟨rfl, -⟩ | ⟨piece, unit, after, inner, -, -, he, -⟩ := scanUnits_eq_some h
    · exact ⟨[], .nil, rfl⟩
    · cases he
  | cons unit units ih =>
    obtain ⟨-, he⟩ | ⟨piece, unit, after, inner, hp, rfl, he, hafter⟩ := scanUnits_eq_some h
    · cases he
    · cases he
      obtain ⟨raw, hr, rfl⟩ := ih hafter
      exact ⟨_, .cons hp hr, (List.append_assoc ..).symm⟩

theorem IsLooseToken.scan (h : IsLooseToken input token)
    (hs : ∀ n, token = .numeral n → Stops isNumeralChar rest) :
    Token.scan (input ++ rest) = some (token, rest) := by
  cases h with
  | strict h => exact h.scan hs
  | half h hn =>
    have hscan := h.scanUnits_append rest
    rw [List.cons_append, List.append_assoc, List.singleton_append, Token.scan, scanQuoted, hscan]
    simp only [Option.map_some, hn, Option.map_none]

theorem IsLooseToken.stops (h : IsLooseToken input token) : Stops isJsonBlank (input ++ rest) := by
  cases h with
  | strict h => exact h.stops
  | half h hn => rfl

theorem scanQuoted_eq_none (h : scanQuoted input = some (none, rest)) :
    ∃ raw units, IsUnits raw units ∧ textOfUnits? units = none ∧ input = raw ++ '"' :: rest := by
  obtain ⟨⟨units, after⟩, hs, he⟩ := Option.map_eq_some_iff.1 h
  obtain ⟨htext, rfl⟩ := Prod.mk.inj he
  obtain ⟨raw, hr, rfl⟩ := isUnits_of_scanUnits hs
  exact ⟨raw, units, hr, Option.map_eq_none_iff.1 htext, rfl⟩

theorem Token.scan_eq_text_none (h : scan input = some (.text none, rest)) :
    ∃ raw, IsLooseToken raw (.text none) ∧ input = raw ++ rest := by
  unfold scan at h
  split at h
  case h_10 =>
    obtain ⟨⟨value, after⟩, hq, he⟩ := Option.map_eq_some_iff.1 h
    cases he
    obtain ⟨raw, units, hr, hn, rfl⟩ := scanQuoted_eq_none hq
    refine ⟨_, .half hr hn, ?_⟩
    rw [List.cons_append, List.append_assoc, List.singleton_append]
  case h_11 =>
    obtain ⟨⟨value, after⟩, hn, he⟩ := Option.map_eq_some_iff.1 h
    cases he
  all_goals cases h

/-- What is read as a token is a text of it. -/
theorem Token.exists_isLooseToken (h : scan input = some (token, rest)) :
    ∃ raw, IsLooseToken raw token ∧ input = raw ++ rest ∧
      ∀ n, token = .numeral n → Stops Char.isDigit rest := by
  by_cases ht : token = .text none
  · subst ht
    obtain ⟨raw, hr, he⟩ := scan_eq_text_none h
    exact ⟨raw, hr, he, nofun⟩
  · obtain ⟨raw, hr, he, hn⟩ := scan_eq_some h ht
    exact ⟨raw, .strict hr, he, hn⟩

/-- A run of tokens is what its texts are divided into. -/
theorem IsLooseRun.scanAll (h : IsLooseRun input tokens) : Token.scanAll input = tokens := by
  induction h with
  | nil hb => exact Token.scanAll_blanks hb
  | cons hb ht hn h ih =>
    rw [← ih]
    apply Token.scanAll_of_scan
    rw [dropWhile_run hb ht.stops]
    exact ht.scan hn

/-- A text that is divided into tokens without a fault is a run of these tokens. -/
theorem isLooseRun_scanAll (hf : Faultless (Token.scanAll input)) :
    IsLooseRun input (Token.scanAll input) := by
  have hblank (text : List Char) : ∀ c ∈ text.takeWhile isJsonBlank, isJsonBlank c = true :=
    fun _ => mem_takeWhile
  have hsplit (text : List Char) :
      text.takeWhile isJsonBlank ++ text.dropWhile isJsonBlank = text :=
    List.takeWhile_append_dropWhile
  fun_induction Token.scanAll input with
  | case1 input hd =>
    rw [← hsplit input, hd, List.append_nil]
    exact .nil (hblank input)
  | case2 input c rest hd hs => exact absurd hf (Token.not_faultless_broken _)
  | case3 input c rest hd token after hs ih =>
    obtain ⟨-, hfaults⟩ := faultless_cons.1 hf
    obtain ⟨raw, hraw, he, hn⟩ := Token.exists_isLooseToken hs
    rw [← hsplit input, hd, he]
    exact .cons (hblank input) hraw
      (fun n hnumeral => Token.stops_of_scanAll (hn n hnumeral) hfaults) (ih hfaults)

theorem IsLooseToken.isFault (h : IsLooseToken input token) : token.isFault = false := by
  cases h with
  | strict h => cases h <;> rfl
  | half => rfl

theorem IsLooseRun.faultless (h : IsLooseRun input tokens) : Faultless tokens := by
  induction h with
  | nil => exact faultless_nil
  | cons hb ht hn h ih => exact faultless_cons.2 ⟨ht.isFault, ih⟩

/-- The strict grammar is the part of the loose one in which every string is a text. -/
theorem isJsonRun_iff : IsJsonRun input tokens ↔ IsLooseRun input tokens ∧ .text none ∉ tokens := by
  constructor
  · intro h
    induction h with
    | nil hb => exact ⟨.nil hb, List.not_mem_nil⟩
    | cons hb ht hn h ih =>
      refine ⟨.cons hb (.strict ht) hn ih.1, List.not_mem_cons_of_ne_of_not_mem ?_ ih.2⟩
      rintro rfl
      cases ht
  · rintro ⟨h, hs⟩
    induction h with
    | nil hb => exact .nil hb
    | cons hb ht hn h ih =>
      obtain ⟨hne, hs⟩ := List.ne_and_not_mem_of_not_mem_cons hs
      cases ht with
      | strict ht => exact .cons hb ht hn (ih hs)
      | half => exact absurd rfl hne

theorem IsJsonRun.scanAll (h : IsJsonRun input tokens) : Token.scanAll input = tokens :=
  (isJsonRun_iff.1 h).1.scanAll

theorem isJsonRun_scanAll (hf : Faultless (Token.scanAll input))
    (ht : .text none ∉ Token.scanAll input) : IsJsonRun input (Token.scanAll input) :=
  isJsonRun_iff.2 ⟨isLooseRun_scanAll hf, ht⟩

end Eligibility
