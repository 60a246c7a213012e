import Eligibility.Proofs.JsonGrammar

namespace Eligibility
set_option autoImplicit true

variable {rest : List Char}

theorem hexValue?_digitChar : ∀ n < 16, hexValue? (Nat.digitChar n) = some n := by
  decide

theorem codeUnit?_digitChar (h : n < 0x100) :
    codeUnit? '0' '0' (Nat.digitChar (n / 16)) (Nat.digitChar (n % 16)) = some n := by
  have hzero : hexValue? '0' = some 0 := rfl
  have hhigh := hexValue?_digitChar (n / 16) (Nat.div_lt_of_lt_mul h)
  have hlow := hexValue?_digitChar (n % 16) (Nat.mod_lt n (by decide))
  simp only [codeUnit?, hzero, hhigh, hlow, Option.some.injEq]
  omega

/-- A character is written as one piece of a string. -/
theorem isPiece_escape (c : Char) : IsPiece (escape c) c.toNat := by
  unfold escape
  split
  case h_8 hquote hslash _ _ _ _ _ =>
    split
    · rename_i hcontrol
      exact .unit (codeUnit?_digitChar (Nat.lt_trans hcontrol (by decide)))
    · rename_i hcontrol
      exact .plain (Nat.le_of_not_lt hcontrol) hquote hslash
  all_goals exact .short rfl

theorem not_isSurrogate (c : Char) :
    isHighSurrogate c.toNat = false ∧ isLowSurrogate c.toNat = false := by
  have hc : c.toNat < 0xd800 ∨ 0xdfff < c.toNat ∧ c.toNat < 0x110000 := c.valid
  simp only [isHighSurrogate, isLowSurrogate, Bool.and_eq_false_iff, decide_eq_false_iff_not]
  omega

theorem isQuoted_escapes (text : List Char) : IsQuoted (text.flatMap escape) text := by
  induction text with
  | nil => exact .nil
  | cons c text ih =>
    obtain ⟨hhigh, hlow⟩ := not_isSurrogate c
    have h := IsQuoted.char (isPiece_escape c) hhigh hlow ih
    rwa [Char.ofNat_toNat] at h

/-- Only zero is written with a zero in front. -/
theorem decimalDigits_zero_cons (h : decimalDigits n = '0' :: rest) : rest = [] := by
  induction n using Nat.strongRecOn generalizing rest with
  | ind n ih =>
    rw [decimalDigits, Nat.toDigits_eq_if (by decide)] at h
    split at h
    · exact (List.cons.inj h).2.symm
    · rename_i hn
      cases hq : decimalDigits (n / 10) with
      | nil => exact absurd hq Nat.toDigits_ne_nil
      | cons c tail =>
        rw [← decimalDigits, hq, List.cons_append] at h
        cases h
        have hz := digitsValue_decimalDigits (n / 10)
        rw [hq, ih (n / 10) (by omega) hq] at hz
        have hv : digitsValue ['0'] = 0 := rfl
        omega

theorem isExponent_writeExponent (exponent : Option Int) :
    IsExponent (Numeral.writeExponent exponent) exponent := by
  cases exponent with
  | none => exact .none
  | some power =>
    have hd : IsDigits (decimalDigits power.natAbs) :=
      ⟨Nat.toDigits_ne_nil, fun c => isDigit_of_mem_decimalDigits⟩
    by_cases hp : power < 0
    · have h := IsExponent.power (.inl rfl) .minus hd
      have hv : signedValue true (digitsValue (decimalDigits power.natAbs)) = power := by
        rw [digitsValue_decimalDigits, signedValue, if_pos rfl]
        omega
      rw [hv] at h
      rw [Numeral.writeExponent, if_pos hp]
      exact h
    · have h := IsExponent.power (.inl rfl) .plus hd
      have hv : signedValue false (digitsValue (decimalDigits power.natAbs)) = power := by
        rw [digitsValue_decimalDigits, signedValue, if_neg Bool.false_ne_true]
        omega
      rw [hv] at h
      rw [Numeral.writeExponent, if_neg hp]
      exact h

variable {n : Numeral}

theorem Numeral.wholeDigits_append (n : Numeral) :
    n.wholeDigits ++ n.fractionDigits = n.allDigits :=
  List.take_append_drop _ _

theorem Numeral.isDigit_of_mem_allDigits (h : c ∈ n.allDigits) : c.isDigit = true := by
  obtain h | h := List.mem_append.1 h
  · rw [(List.mem_replicate.1 h).2]
    rfl
  · exact isDigit_of_mem_decimalDigits h

theorem Numeral.isDigit_of_mem_wholeDigits (h : c ∈ n.wholeDigits) : c.isDigit = true :=
  isDigit_of_mem_allDigits (List.mem_of_mem_take h)

theorem Numeral.isDigit_of_mem_fractionDigits (h : c ∈ n.fractionDigits) : c.isDigit = true :=
  isDigit_of_mem_allDigits (List.mem_of_mem_drop h)

theorem Numeral.digitsValue_allDigits (n : Numeral) : digitsValue n.allDigits = n.digits := by
  rw [allDigits, List.leftpad, digitsValue, Nat.ofDigitChars_append,
    Nat.ofDigitChars_replicate_zero, Nat.mul_zero]
  exact digitsValue_decimalDigits n.digits

theorem Numeral.length_allDigits (n : Numeral) :
    n.allDigits.length = max (n.places + 1) (decimalDigits n.digits).length :=
  List.length_leftpad

theorem Numeral.length_wholeDigits (n : Numeral) :
    n.wholeDigits.length = n.allDigits.length - n.places :=
  List.length_take_of_le (Nat.sub_le _ _)

theorem Numeral.length_fractionDigits (n : Numeral) : n.fractionDigits.length = n.places := by
  have hlen := n.length_allDigits
  rw [fractionDigits, List.length_drop]
  omega

theorem Numeral.wholeDigits_ne_nil (n : Numeral) : n.wholeDigits ≠ [] := by
  have hall := n.length_allDigits
  have hlen := n.length_wholeDigits
  intro he
  rw [he, List.length_nil] at hlen
  omega

/-- The digits before the point start with a zero only if it is the only one of them. -/
theorem Numeral.wholeDigits_zero_cons (h : n.wholeDigits = '0' :: tail) : tail = [] := by
  have hall := n.length_allDigits
  by_cases hp : (decimalDigits n.digits).length ≤ n.places
  · have hlen := n.length_wholeDigits
    rw [h, List.length_cons] at hlen
    exact List.eq_nil_of_length_eq_zero (by omega)
  · have hz : n.places + 1 - (decimalDigits n.digits).length = 0 := by omega
    have happ := n.wholeDigits_append
    rw [h, List.cons_append, allDigits, List.leftpad, hz, List.replicate_zero,
      List.nil_append] at happ
    exact (List.append_eq_nil_iff.1 (decimalDigits_zero_cons happ.symm)).1

def Numeral.pointText (n : Numeral) : List Char :=
  if n.places = 0 then [] else '.' :: n.fractionDigits

theorem Numeral.isFraction_pointText (n : Numeral) : IsFraction n.pointText n.fractionDigits := by
  have hlen := n.length_fractionDigits
  by_cases hp : n.places = 0
  · rw [hp] at hlen
    rw [pointText, if_pos hp, List.eq_nil_of_length_eq_zero hlen]
    exact .none
  · have hne : n.fractionDigits ≠ [] := fun he => hp (by rw [← hlen, he, List.length_nil])
    rw [pointText, if_neg hp]
    exact .point ⟨hne, fun c => isDigit_of_mem_fractionDigits⟩

theorem Numeral.write_eq (n : Numeral) :
    n.write = (if n.negative then ['-'] else []) ++
      (n.wholeDigits ++ (n.pointText ++ writeExponent n.exponent)) := by
  simp only [write, List.append_assoc]
  rfl

/-- A numeral is written as a number. -/
theorem Numeral.isNumeral_write (n : Numeral) : IsNumeral n.write n := by
  have hw : IsDigits n.wholeDigits :=
    ⟨n.wholeDigits_ne_nil, fun c => isDigit_of_mem_wholeDigits⟩
  have h := IsNumeral.intro n.negative hw (fun tail => wholeDigits_zero_cons)
    n.isFraction_pointText (isExponent_writeExponent n.exponent)
  rwa [wholeDigits_append, digitsValue_allDigits, length_fractionDigits, ← write_eq] at h

/-- A token is written as a text of it, if it has one. -/
theorem Token.isJsonToken_write {token : Token} (hf : token.isFault = false)
    (ht : token ≠ .text none) :
    IsJsonToken token.write token := by
  cases token with
  | openArray => exact .openArray
  | closeArray => exact .closeArray
  | openObject => exact .openObject
  | closeObject => exact .closeObject
  | comma => exact .comma
  | colon => exact .colon
  | null => exact .null
  | bool value =>
    cases value with
    | true => exact .true
    | false => exact .false
  | numeral n => exact .numeral n.isNumeral_write
  | text value =>
    cases value with
    | none => exact absurd rfl ht
    | some value =>
      have h := IsJsonToken.text (isQuoted_escapes value.toList)
      rwa [String.ofList_toList] at h
  | fault => cases hf

/-- A token is read back from its text; a number must not be prolonged by what follows. -/
theorem Token.scanAll_write {token : Token} (hf : token.isFault = false)
    (hs : ∀ n, token = .numeral n → Stops isNumeralChar rest) :
    scanAll (token.write ++ rest) = token :: scanAll rest := by
  refine scanAll_of_scan ?_
  by_cases ht : token = .text none
  · rw [ht]
    rfl
  · have htoken := isJsonToken_write hf ht
    rw [htoken.stops.dropWhile]
    exact htoken.scan hs

end Eligibility
