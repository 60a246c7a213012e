import Eligibility.Json.Token
import Eligibility.Proofs.DecimalText

namespace Eligibility
set_option autoImplicit true

/-- The digits behind a point, or nothing. -/
inductive IsFraction : List Char → List Char → Prop
  | none : IsFraction [] []
  | point (hd : IsDigits digits) : IsFraction ('.' :: digits) digits

/-- The numbers of JSON. Only a zero alone starts with a zero, and a point stands between digits. -/
inductive IsNumeral : List Char → Numeral → Prop
  | intro (negative : Bool) (hw : IsDigits whole) (hz : ∀ tail, whole = '0' :: tail → tail = [])
    (hf : IsFraction point fraction) (he : IsExponent tail exponent) :
    IsNumeral ((if negative then ['-'] else []) ++ (whole ++ (point ++ tail)))
      ⟨negative, digitsValue (whole ++ fraction), fraction.length, exponent⟩

/-- A character of a string as it stands or as an escape, with its code point; the escape of a
UTF-16 code unit gives the unit. -/
inductive IsPiece : List Char → Nat → Prop
  | plain (hc : 0x20 ≤ c.toNat) (hq : c ≠ '"') (hs : c ≠ '\\') : IsPiece [c] c.toNat
  | short (hm : shortEscape? mark = some c) : IsPiece ['\\', mark] c.toNat
  | unit (hu : codeUnit? a b c d = some unit) : IsPiece ['\\', 'u', a, b, c, d] unit

/-- What stands between the quotes of a string, and the text of the string. Surrogates come in
pairs, since half of a pair is no character and spells no text. -/
inductive IsQuoted : List Char → List Char → Prop
  | nil : IsQuoted [] []
  | char (hp : IsPiece piece unit) (hh : isHighSurrogate unit = false)
    (hl : isLowSurrogate unit = false) (h : IsQuoted raw text) :
    IsQuoted (piece ++ raw) (Char.ofNat unit :: text)
  | pair (hp : IsPiece piece high) (hh : isHighSurrogate high = true) (hq : IsPiece piece' low)
    (hl : isLowSurrogate low = true) (h : IsQuoted raw text) :
    IsQuoted (piece ++ (piece' ++ raw)) (joinSurrogates high low :: text)

/-- The texts of a token. A fault and a string that is no text have none. -/
inductive IsJsonToken : List Char → Token → Prop
  | openArray : IsJsonToken ['['] .openArray
  | closeArray : IsJsonToken [']'] .closeArray
  | openObject : IsJsonToken ['\x7b'] .openObject
  | closeObject : IsJsonToken ['\x7d'] .closeObject
  | comma : IsJsonToken [','] .comma
  | colon : IsJsonToken [':'] .colon
  | null : IsJsonToken ['n', 'u', 'l', 'l'] .null
  | true : IsJsonToken ['t', 'r', 'u', 'e'] (.bool true)
  | false : IsJsonToken ['f', 'a', 'l', 's', 'e'] (.bool false)
  | numeral (hn : IsNumeral text n) : IsJsonToken text (.numeral n)
  | text (hq : IsQuoted raw text) :
    IsJsonToken ('"' :: (raw ++ ['"'])) (.text (some (.ofList text)))

/-- The characters that would prolong a number in JSON. -/
def isNumeralChar (c : Char) : Bool :=
  isNumberChar c || c == 'e' || c == 'E'

/-- The texts of tokens in their order with white space between and around them. A number ends
before what would prolong it. -/
inductive IsJsonRun : List Char → List Token → Prop
  | nil (hb : ∀ c ∈ blanks, isJsonBlank c = true) : IsJsonRun blanks []
  | cons (hb : ∀ c ∈ blanks, isJsonBlank c = true) (ht : IsJsonToken text token)
    (hn : ∀ n, token = .numeral n → Stops isNumeralChar rest) (h : IsJsonRun rest tokens) :
    IsJsonRun (blanks ++ (text ++ rest)) (token :: tokens)

variable {c : Char} {input rest raw text digits whole fraction tail : List Char}
variable {units : List Nat} {token : Token} {n : Numeral} {exponent : Option Int}

theorem not_isNumberChar_of_not_isNumeralChar (h : isNumeralChar c = false) :
    isNumberChar c = false :=
  (Bool.or_eq_false_iff.1 (Bool.or_eq_false_iff.1 h).1).1

theorem Numeral.scanWhole_append (hd : IsDigits digits)
    (hz : ∀ tail, digits = '0' :: tail → tail = []) (hs : Stops Char.isDigit rest) :
    scanWhole (digits ++ rest) = some (digits, rest) := by
  rw [scanWhole, scanDigits_run hd.2 hs]
  split
  · rename_i he
    cases he
    exact absurd rfl hd.1
  · rename_i he
    cases he
    cases hz _ rfl
  · rename_i he
    cases he
    rfl

theorem Numeral.scanWhole_eq_some (h : scanWhole input = some (digits, rest)) :
    IsDigits digits ∧ (∀ tail, digits = '0' :: tail → tail = []) ∧ input = digits ++ rest ∧
      Stops Char.isDigit rest := by
  unfold scanWhole at h
  split at h
  · cases h
  · cases h
  · rename_i whole after hne hz hs
    cases h
    cases hs
    refine ⟨⟨hne, fun _ => mem_takeWhile⟩, ?_, (scanDigits_append input).symm,
      stops_dropWhile _ _⟩
    rintro tail he
    cases tail with
    | nil => rfl
    | cons c tail => exact absurd he (hz c tail)

theorem Numeral.scanFraction_append (hf : IsFraction text fraction)
    (hs : Stops isNumberChar rest) : scanFraction (text ++ rest) = some (fraction, rest) := by
  cases hf with
  | none =>
    rw [List.nil_append]
    unfold scanFraction
    split
    · cases hs
    · rfl
  | point hd =>
    have hdigit := hs.weaken fun c => not_isDigit_of_not_isNumberChar
    rw [List.cons_append, scanFraction, scanDigits_run hd.2 hdigit]
    split
    · rename_i he
      cases he
      exact absurd rfl hd.1
    · rename_i he
      cases he
      rfl

theorem Numeral.scanFraction_eq_some (h : scanFraction input = some (fraction, rest))
    (hs : Stops Char.isDigit input) :
    ∃ text, IsFraction text fraction ∧ input = text ++ rest ∧ Stops Char.isDigit rest := by
  unfold scanFraction at h
  split at h
  · split at h
    · cases h
    · rename_i digits after hne hscan
      cases h
      cases hscan
      refine ⟨_, .point ⟨hne, fun _ => mem_takeWhile⟩, ?_, stops_dropWhile _ _⟩
      rw [List.cons_append, List.takeWhile_append_dropWhile]
  · cases h
    exact ⟨[], .none, rfl, hs⟩

theorem Numeral.scanExponent_append (he : IsExponent text exponent)
    (hs : Stops isNumeralChar rest) : scanExponent (text ++ rest) = some (exponent, rest) := by
  cases he with
  | none =>
    cases rest with
    | nil => rfl
    | cons c rest =>
      simp only [Stops, isNumeralChar, Bool.or_eq_false_iff, beq_eq_false_iff_ne] at hs
      rw [List.nil_append, scanExponent, if_neg (not_or.2 ⟨hs.1.2, hs.2⟩)]
  | power hm hsign hd =>
    have hdigit := (hs.weaken fun c => not_isNumberChar_of_not_isNumeralChar).weaken
      fun c => not_isDigit_of_not_isNumberChar
    rw [List.cons_append, List.append_assoc, scanExponent, if_pos hm,
      scanInt_append hsign hd hdigit]
    rfl

theorem Numeral.scanExponent_eq_some (h : scanExponent input = some (exponent, rest))
    (hs : Stops Char.isDigit input) :
    ∃ text, IsExponent text exponent ∧ input = text ++ rest ∧ Stops Char.isDigit rest := by
  unfold scanExponent at h
  split at h
  · cases h
    exact ⟨[], .none, rfl, hs⟩
  · split at h
    · rename_i hm
      obtain ⟨⟨power, after⟩, hi, he⟩ := Option.map_eq_some_iff.1 h
      cases he
      obtain ⟨sign, negative, digits, hsign, hd, rfl, rfl, hstop⟩ := scanInt_eq_some hi
      refine ⟨_, .power hm hsign hd, ?_, hstop⟩
      rw [List.cons_append, List.append_assoc]
    · cases h
      exact ⟨[], .none, rfl, hs⟩

theorem Numeral.scan_of_digit (hc : c.isDigit = true) :
    scan (c :: rest) = scanUnsigned false (c :: rest) := by
  unfold scan
  split
  · rename_i he
    cases he
    cases hc
  · rfl

/-- Every number is read, if what follows does not prolong it. -/
theorem IsNumeral.scan (h : IsNumeral text n) (hs : Stops isNumeralChar rest) :
    Numeral.scan (text ++ rest) = some (n, rest) := by
  cases h with | @intro whole point fraction tail exponent negative hw hz hf he =>
  have htail : Stops isNumberChar (tail ++ rest) :=
    he.stops.append (hs.weaken fun c => not_isNumberChar_of_not_isNumeralChar)
  have hpoint : Stops Char.isDigit (point ++ (tail ++ rest)) := by
    cases hf with
    | none => exact htail.weaken fun c => not_isDigit_of_not_isNumberChar
    | point hd => rfl
  have hunsigned : Numeral.scanUnsigned negative (whole ++ (point ++ (tail ++ rest))) =
      some (⟨negative, digitsValue (whole ++ fraction), fraction.length, exponent⟩, rest) := by
    rw [Numeral.scanUnsigned, Numeral.scanWhole_append hw hz hpoint]
    simp only [Numeral.scanFraction_append hf htail, Numeral.scanExponent_append he hs]
  simp only [List.append_assoc]
  cases negative with
  | true => exact hunsigned
  | false =>
    obtain ⟨c, digits, rfl, hc⟩ := hw.head
    exact (Numeral.scan_of_digit hc).trans hunsigned

theorem Numeral.scanUnsigned_eq_some {negative : Bool}
    (h : scanUnsigned negative input = some (n, rest)) :
    ∃ text, IsNumeral ((if negative then ['-'] else []) ++ text) n ∧ input = text ++ rest ∧
      Stops Char.isDigit rest := by
  unfold scanUnsigned at h
  split at h
  · cases h
  rename_i whole afterWhole hw
  split at h
  · cases h
  rename_i fraction afterFraction hf
  split at h
  · cases h
  rename_i exponent afterExponent he
  cases h
  obtain ⟨hdigits, hz, rfl, hpoint⟩ := scanWhole_eq_some hw
  obtain ⟨point, hfraction, rfl, hmark⟩ := scanFraction_eq_some hf hpoint
  obtain ⟨tail, hexponent, rfl, hrest⟩ := scanExponent_eq_some he hmark
  refine ⟨_, .intro negative hdigits hz hfraction hexponent, ?_, hrest⟩
  simp only [List.append_assoc]

/-- What is read as a number is one. -/
theorem Numeral.scan_eq_some (h : scan input = some (n, rest)) :
    ∃ text, IsNumeral text n ∧ input = text ++ rest ∧ Stops Char.isDigit rest := by
  unfold scan at h
  split at h
  all_goals obtain ⟨text, hn, rfl, hs⟩ := scanUnsigned_eq_some h
  · exact ⟨_, hn, rfl, hs⟩
  · exact ⟨_, hn, rfl, hs⟩

theorem IsNumeral.head (h : IsNumeral text n) :
    ∃ c tail, text = c :: tail ∧ (c = '-' ∨ c.isDigit = true) := by
  cases h with | @intro whole point fraction tail exponent negative hw hz hf he =>
  cases negative with
  | true => exact ⟨_, _, rfl, .inl rfl⟩
  | false =>
    obtain ⟨c, digits, rfl, hc⟩ := hw.head
    exact ⟨c, _, rfl, .inr hc⟩

theorem shortEscape?_ne (h : shortEscape? mark = some c) : mark ≠ 'u' := by
  rintro rfl
  cases h

/-- A piece of a string is read as its unit. -/
theorem IsPiece.scanUnits_append (h : IsPiece raw code) (rest : List Char) :
    scanUnits (raw ++ rest) = pushUnit code (scanUnits rest) := by
  cases h with
  | plain hc hq hs =>
    rw [List.singleton_append, scanUnits, if_neg (Nat.not_lt.2 hc)]
    · exact hq
    · exact fun _ _ _ _ _ he => absurd he hs
    · exact fun _ _ he => absurd he hs
  | short hm =>
    rw [List.cons_append, List.singleton_append, scanUnits, hm]
    intro a b c d rest he
    exact absurd he (shortEscape?_ne hm)
  | unit hu =>
    simp only [List.cons_append, List.nil_append, scanUnits, hu]

theorem scanUnits_eq_some (h : scanUnits input = some (units, rest)) :
    input = '"' :: rest ∧ units = [] ∨ ∃ raw unit after inner, IsPiece raw unit ∧
      input = raw ++ after ∧ units = unit :: inner ∧ scanUnits after = some (inner, rest) := by
  fun_induction scanUnits input with
  | case1 => cases h
  | case2 after =>
    cases h
    exact .inl ⟨rfl, rfl⟩
  | case3 a b c d after hu => cases h
  | case4 a b c d after unit hu =>
    obtain ⟨inner, hs, rfl⟩ := pushUnit_eq_some h
    exact .inr ⟨_, unit, after, inner, .unit hu, rfl, rfl, hs⟩
  | case5 mark after hu hm => cases h
  | case6 mark after hu c hm =>
    obtain ⟨inner, hs, rfl⟩ := pushUnit_eq_some h
    exact .inr ⟨_, _, after, inner, .short hm, rfl, rfl, hs⟩
  | case7 c after hq hu hm hc => cases h
  | case8 c after hq hu hm hc =>
    obtain ⟨inner, hs, rfl⟩ := pushUnit_eq_some h
    have hslash : c ≠ '\\' := by
      rintro rfl
      cases after with
      | nil => cases hs
      | cons mark after => exact hm mark after rfl rfl
    exact .inr ⟨_, _, after, inner, .plain (Nat.le_of_not_lt hc) hq hslash, rfl, rfl, hs⟩

theorem textOfUnits?_char (hh : isHighSurrogate code = false) (hl : isLowSurrogate code = false)
    (units : List Nat) :
    textOfUnits? (code :: units) = (textOfUnits? units).map (Char.ofNat code :: ·) := by
  rw [textOfUnits?.eq_def]
  simp only [hh, hl, Bool.false_eq_true, ↓reduceIte]

theorem textOfUnits?_pair (hh : isHighSurrogate high = true) (hl : isLowSurrogate low = true)
    (units : List Nat) : textOfUnits? (high :: low :: units) =
      (textOfUnits? units).map (joinSurrogates high low :: ·) := by
  rw [textOfUnits?.eq_def]
  simp only [hh, hl, ↓reduceIte]

theorem textOfUnits?_eq_some (h : textOfUnits? (code :: units) = some text) :
    (isHighSurrogate code = false ∧ isLowSurrogate code = false ∧
        ∃ inner, text = Char.ofNat code :: inner ∧ textOfUnits? units = some inner) ∨
      ∃ low after inner, isHighSurrogate code = true ∧ isLowSurrogate low = true ∧
        units = low :: after ∧ text = joinSurrogates code low :: inner ∧
        textOfUnits? after = some inner := by
  rw [textOfUnits?.eq_def] at h
  dsimp only at h
  split at h
  case isTrue hh =>
    split at h
    · cases h
    · rename_i low after
      split at h
      case isTrue hl =>
        obtain ⟨inner, hi, rfl⟩ := Option.map_eq_some_iff.1 h
        exact .inr ⟨low, after, inner, hh, hl, rfl, rfl, hi⟩
      case isFalse => cases h
  case isFalse hh =>
    split at h
    case isTrue => cases h
    case isFalse hl =>
      obtain ⟨inner, hi, rfl⟩ := Option.map_eq_some_iff.1 h
      exact .inl ⟨Bool.eq_false_iff.2 hh, Bool.eq_false_iff.2 hl, inner, rfl, hi⟩

theorem IsQuoted.scanUnits_append (h : IsQuoted raw text) (rest : List Char) :
    ∃ units, scanUnits (raw ++ '"' :: rest) = some (units, rest) ∧
      textOfUnits? units = some text := by
  induction h with
  | nil => exact ⟨[], rfl, rfl⟩
  | @char piece unit raw text hp hh hl h ih =>
    obtain ⟨units, hs, ht⟩ := ih
    refine ⟨unit :: units, ?_, ?_⟩
    · rw [List.append_assoc, hp.scanUnits_append, hs]
      rfl
    · rw [textOfUnits?_char hh hl, ht]
      rfl
  | @pair piece high piece' low raw text hp hh hq hl h ih =>
    obtain ⟨units, hs, ht⟩ := ih
    refine ⟨high :: low :: units, ?_, ?_⟩
    · rw [List.append_assoc, List.append_assoc, hp.scanUnits_append, hq.scanUnits_append, hs]
      rfl
    · rw [textOfUnits?_pair hh hl, ht]
      rfl

/-- A string is read as its text, whatever its escapes. -/
theorem IsQuoted.scan (h : IsQuoted raw text) (rest : List Char) :
    scanQuoted (raw ++ '"' :: rest) = some (some (.ofList text), rest) := by
  obtain ⟨units, hs, ht⟩ := h.scanUnits_append rest
  simp only [scanQuoted, hs, ht, Option.map_some]

/-- What is read as a string is one. The induction is on the units, of which a pair takes two. -/
theorem isQuoted_of_scanUnits (hs : scanUnits input = some (units, rest))
    (ht : textOfUnits? units = some text) :
    ∃ raw, IsQuoted raw text ∧ input = raw ++ '"' :: rest := by
  induction hn : units.length using Nat.strongRecOn generalizing input units text with
  | ind length ih =>
    obtain ⟨rfl, rfl⟩ | ⟨piece, unit, after, inner, hp, rfl, rfl, hafter⟩ := scanUnits_eq_some hs
    · cases ht
      exact ⟨[], .nil, rfl⟩
    obtain ⟨hh, hl, chars, rfl, hi⟩ | ⟨low, last, chars, hh, hl, rfl, rfl, hi⟩ :=
      textOfUnits?_eq_some ht
    · have hlength : inner.length < length := by
        rw [← hn]
        exact Nat.lt_succ_self _
      obtain ⟨raw, hr, rfl⟩ := ih _ hlength hafter hi rfl
      exact ⟨_, .char hp hh hl hr, (List.append_assoc ..).symm⟩
    · obtain ⟨-, hnil⟩ | ⟨piece', unit', after, inner, hq, rfl, he, hlast⟩ :=
        scanUnits_eq_some hafter
      · cases hnil
      · obtain ⟨rfl, rfl⟩ := List.cons.inj he
        have hlength : last.length < length := by
          rw [← hn]
          exact Nat.lt_succ_of_lt (Nat.lt_succ_self _)
        obtain ⟨raw, hr, rfl⟩ := ih _ hlength hlast hi rfl
        refine ⟨_, .pair hp hh hq hl hr, ?_⟩
        simp only [List.append_assoc]

theorem scanQuoted_eq_some {text : String} (h : scanQuoted input = some (some text, rest)) :
    ∃ raw, IsQuoted raw text.toList ∧ input = raw ++ '"' :: rest := by
  obtain ⟨⟨units, after⟩, hs, he⟩ := Option.map_eq_some_iff.1 h
  obtain ⟨htext, rfl⟩ := Prod.mk.inj he
  obtain ⟨chars, ht, rfl⟩ := Option.map_eq_some_iff.1 htext
  rw [String.toList_ofList]
  exact isQuoted_of_scanUnits hs ht

theorem not_isJsonBlank_of_isDigit (h : c.isDigit = true) : isJsonBlank c = false := by
  cases hb : isJsonBlank c with
  | false => rfl
  | true =>
    simp only [isJsonBlank, Bool.or_eq_true, beq_iff_eq] at hb
    obtain ((rfl | rfl) | rfl) | rfl := hb <;> cases h

theorem Token.scan_of_number (hc : c = '-' ∨ c.isDigit = true) :
    scan (c :: rest) =
      (Numeral.scan (c :: rest)).map fun (value, rest) => (.numeral value, rest) := by
  unfold scan
  split
  case h_11 => rfl
  all_goals
    rename_i he
    cases he
    exact absurd hc (by decide)

/-- A token is read from each of its texts; a number must not be prolonged by what follows. -/
theorem IsJsonToken.scan (h : IsJsonToken input token)
    (hs : ∀ n, token = .numeral n → Stops isNumeralChar rest) :
    Token.scan (input ++ rest) = some (token, rest) := by
  cases h with
  | numeral hn =>
    have hscan := hn.scan (hs _ rfl)
    obtain ⟨c, tail, rfl, hc⟩ := hn.head
    rw [List.cons_append] at hscan ⊢
    rw [Token.scan_of_number hc, hscan]
    rfl
  | text hq =>
    have hscan := hq.scan rest
    rw [List.cons_append, List.append_assoc, List.singleton_append, Token.scan, hscan]
    rfl
  | _ => rfl

theorem IsJsonToken.stops (h : IsJsonToken input token) : Stops isJsonBlank (input ++ rest) := by
  cases h with
  | numeral hn =>
    obtain ⟨c, tail, rfl, hc⟩ := hn.head
    rcases hc with rfl | hc
    · rfl
    · exact not_isJsonBlank_of_isDigit hc
  | _ => rfl

/-- What is read as a token is a text of it, unless it is a string that is no text. -/
theorem Token.scan_eq_some (h : scan input = some (token, rest)) (ht : token ≠ .text none) :
    ∃ raw, IsJsonToken raw token ∧ input = raw ++ rest ∧
      ∀ n, token = .numeral n → Stops Char.isDigit rest := by
  unfold scan at h
  split at h
  case h_10 =>
    obtain ⟨⟨value, after⟩, hq, he⟩ := Option.map_eq_some_iff.1 h
    cases he
    cases value with
    | none => exact absurd rfl ht
    | some value =>
      obtain ⟨raw, hraw, rfl⟩ := scanQuoted_eq_some hq
      have htoken := IsJsonToken.text hraw
      rw [String.ofList_toList] at htoken
      refine ⟨_, htoken, ?_, nofun⟩
      rw [List.cons_append, List.append_assoc, List.singleton_append]
  case h_11 =>
    obtain ⟨⟨value, after⟩, hn, he⟩ := Option.map_eq_some_iff.1 h
    cases he
    obtain ⟨raw, hraw, rfl, hs⟩ := Numeral.scan_eq_some hn
    exact ⟨_, .numeral hraw, rfl, fun _ _ => hs⟩
  case h_1 => cases h; exact ⟨_, .openArray, rfl, nofun⟩
  case h_2 => cases h; exact ⟨_, .closeArray, rfl, nofun⟩
  case h_3 => cases h; exact ⟨_, .openObject, rfl, nofun⟩
  case h_4 => cases h; exact ⟨_, .closeObject, rfl, nofun⟩
  case h_5 => cases h; exact ⟨_, .comma, rfl, nofun⟩
  case h_6 => cases h; exact ⟨_, .colon, rfl, nofun⟩
  case h_7 => cases h; exact ⟨_, .null, rfl, nofun⟩
  case h_8 => cases h; exact ⟨_, .true, rfl, nofun⟩
  case h_9 => cases h; exact ⟨_, .false, rfl, nofun⟩

theorem Token.scanAll_blanks (hb : ∀ c ∈ input, isJsonBlank c = true) : scanAll input = [] := by
  have hd : (input ++ []).dropWhile isJsonBlank = [] := dropWhile_run hb trivial
  rw [List.append_nil] at hd
  rw [scanAll]
  split
  · rfl
  · rename_i he
    rw [hd] at he
    cases he

theorem Token.scanAll_of_scan (hs : scan (input.dropWhile isJsonBlank) = some (token, rest)) :
    scanAll input = token :: scanAll rest := by
  rw [scanAll]
  split
  · rename_i he
    rw [he] at hs
    cases hs
  · rename_i he
    rw [he] at hs
    split
    · rename_i hn
      rw [hn] at hs
      cases hs
    · rename_i hn
      rw [hn] at hs
      cases hs
      rfl

def Token.isFault : Token → Bool
  | .fault _ _ _ => true
  | _ => false

/-- The tokens go on to the end of their text. -/
def Faultless (tokens : List Token) : Prop :=
  ∀ token ∈ tokens, token.isFault = false

theorem faultless_nil : Faultless [] :=
  List.forall_mem_nil _

theorem faultless_cons : Faultless (token :: tokens) ↔ token.isFault = false ∧ Faultless tokens :=
  List.forall_mem_cons

theorem faultless_append :
    Faultless (tokens ++ tokens') ↔ Faultless tokens ∧ Faultless tokens' :=
  List.forall_mem_append

theorem Token.isFault_broken (input : List Char) : (broken input).isFault = true := by
  unfold broken
  split
  · rfl
  · split
    · rfl
    · rfl

theorem Token.not_faultless_broken (input : List Char) : ¬ Faultless [broken input] := by
  intro h
  have hf := h _ List.mem_cons_self
  rw [isFault_broken] at hf
  cases hf

/-- No token starts with a character that would prolong a number but is no digit. -/
theorem Token.scanAll_of_isNumeralChar (hn : isNumeralChar c = true) (hd : c.isDigit = false) :
    scanAll (c :: rest) = [broken (c :: rest)] := by
  have hc : c = '.' ∨ c = 'e' ∨ c = 'E' := by
    simpa [isNumeralChar, isNumberChar, hd, or_assoc] using hn
  have hb : isJsonBlank c = false := by
    rcases hc with rfl | rfl | rfl <;> rfl
  have hnone : scan (c :: rest) = none := by
    rcases hc with rfl | rfl | rfl <;> rfl
  have hdrop : (c :: rest).dropWhile isJsonBlank = c :: rest :=
    List.dropWhile_cons_of_neg (Bool.eq_false_iff.1 hb)
  rw [scanAll]
  split
  · rename_i he
    rw [hdrop] at he
    cases he
  · rename_i he
    rw [hdrop] at he
    obtain ⟨rfl, rfl⟩ := List.cons.inj he
    split
    · rfl
    · rename_i hs
      rw [hnone] at hs
      cases hs

theorem Token.stops_of_scanAll (hs : Stops Char.isDigit rest) (hf : Faultless (scanAll rest)) :
    Stops isNumeralChar rest := by
  cases rest with
  | nil => trivial
  | cons c rest =>
    cases hn : isNumeralChar c with
    | false => exact hn
    | true =>
      rw [scanAll_of_isNumeralChar hn hs] at hf
      exact absurd hf (not_faultless_broken _)

end Eligibility
