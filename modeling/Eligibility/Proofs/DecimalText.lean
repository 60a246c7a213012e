import Eligibility.Binary64.Literal
import Eligibility.Proofs.Scanning

namespace Eligibility
set_option autoImplicit true

/-- At least one ASCII digit and nothing else. -/
def IsDigits (text : List Char) : Prop :=
  text ≠ [] ∧ ∀ c ∈ text, c.isDigit = true

instance decidableIsDigits (text : List Char) : Decidable (IsDigits text) :=
  decidable_of_iff (text ≠ [] ∧ text.all Char.isDigit = true)
    (and_congr Iff.rfl List.all_eq_true)

/-- A sign that may be left out, and whether it is a minus. -/
inductive IsSign : List Char → Bool → Prop
  | none : IsSign [] false
  | plus : IsSign ['+'] false
  | minus : IsSign ['-'] true

def signedValue (negative : Bool) (value : Nat) : Int :=
  if negative then -value else value

/-- A power of ten behind its mark, or nothing. -/
inductive IsExponent : List Char → Option Int → Prop
  | none : IsExponent [] none
  | power (hm : mark = 'e' ∨ mark = 'E') (hs : IsSign sign negative) (hd : IsDigits digits) :
    IsExponent (mark :: (sign ++ digits)) (some (signedValue negative (digitsValue digits)))

/-- Digits, then a point and digits, of which one side may be missing. -/
inductive IsMantissa : List Char → List Char → List Char → Prop
  | whole (hw : IsDigits whole) : IsMantissa whole whole []
  | point (hw : IsDigits whole) (hf : ∀ c ∈ fraction, c.isDigit = true) :
    IsMantissa (whole ++ '.' :: fraction) whole fraction
  | fraction (hf : IsDigits fraction) : IsMantissa ('.' :: fraction) [] fraction

/-- The number that the digits on the two sides of a point write, with a power of ten. -/
def decimalOf (whole fraction : List Char) (power : Int) : Decimal :=
  ⟨digitsValue (whole ++ fraction), power - fraction.length⟩

/-- The texts of a decimal number with its sign. -/
inductive IsDecimal : List Char → Bool → Decimal → Prop
  | intro (hs : IsSign sign negative) (hm : IsMantissa mantissa whole fraction)
    (he : IsExponent tail power) :
    IsDecimal (sign ++ (mantissa ++ tail)) negative (decimalOf whole fraction (power.getD 0))

/-- The characters of decimal numbers. -/
def isDecimalChar (c : Char) : Bool :=
  c.isDigit || ['+', '-', '.', 'e', 'E'].contains c

variable {text rest digits sign tail mantissa before behind : List Char} {negative : Bool}
  {c : Char} {written : Option Int}

theorem IsDigits.head (h : IsDigits digits) :
    ∃ c tail, digits = c :: tail ∧ c.isDigit = true := by
  obtain ⟨hne, hd⟩ := h
  cases digits with
  | nil => exact absurd rfl hne
  | cons c tail => exact ⟨c, tail, rfl, hd c List.mem_cons_self⟩

theorem IsDigits.ne_head (h : IsDigits digits) (hc : c.isDigit = false) :
    digits ++ rest ≠ c :: text := by
  obtain ⟨d, tail, rfl, hd⟩ := h.head
  intro he
  rw [(List.cons.inj he).1, hc] at hd
  cases hd

theorem scanNat_eq_some (h : scanNat text = some (value, rest)) :
    ∃ digits, IsDigits digits ∧ text = digits ++ rest ∧ value = digitsValue digits ∧
      Stops Char.isDigit rest := by
  unfold scanNat at h
  split at h
  · cases h
  · rename_i digits after hne hs
    cases h
    cases hs
    exact ⟨_, ⟨hne, fun _ => mem_takeWhile⟩, (scanDigits_append text).symm, rfl,
      stops_dropWhile _ _⟩

theorem scanInt_append (hs : IsSign sign negative) (hd : IsDigits digits)
    (hstop : Stops Char.isDigit rest) :
    scanInt (sign ++ (digits ++ rest)) =
      some (signedValue negative (digitsValue digits), rest) := by
  have hnat := scanNat_append hd.2 hd.1 hstop
  cases hs with
  | none =>
    rw [List.nil_append]
    unfold scanInt
    split
    · rename_i he
      exact absurd he (hd.ne_head rfl)
    · rename_i he
      exact absurd he (hd.ne_head rfl)
    · rw [hnat]
      rfl
  | plus =>
    simp only [List.cons_append, List.nil_append, scanInt, hnat]
    rfl
  | minus =>
    simp only [List.cons_append, List.nil_append, scanInt, hnat]
    rfl

theorem scanInt_eq_some (h : scanInt text = some (value, rest)) :
    ∃ sign negative digits, IsSign sign negative ∧ IsDigits digits ∧
      text = sign ++ (digits ++ rest) ∧ value = signedValue negative (digitsValue digits) ∧
      Stops Char.isDigit rest := by
  unfold scanInt at h
  split at h
  all_goals
    obtain ⟨⟨value, after⟩, hn, he⟩ := Option.map_eq_some_iff.1 h
    cases he
    obtain ⟨digits, hd, rfl, rfl, hs⟩ := scanNat_eq_some hn
  · exact ⟨_, _, digits, .minus, hd, rfl, rfl, hs⟩
  · exact ⟨_, _, digits, .plus, hd, rfl, rfl, hs⟩
  · exact ⟨_, _, digits, .none, hd, rfl, rfl, hs⟩

theorem readPower_eq_some_iff : readPower text = some value ↔
    ∃ exponent, IsExponent text exponent ∧ value = exponent.getD 0 := by
  constructor
  · intro h
    unfold readPower at h
    split at h
    case h_1 =>
      cases h
      exact ⟨_, .none, rfl⟩
    case h_2 mark rest =>
      split at h
      case isFalse => cases h
      case isTrue hm =>
        split at h
        case h_1 hi =>
          cases h
          obtain ⟨sign, negative, digits, hs, hd, rfl, rfl, -⟩ := scanInt_eq_some hi
          rw [List.append_nil]
          exact ⟨_, .power hm hs hd, rfl⟩
        case h_2 => cases h
  · rintro ⟨exponent, h, rfl⟩
    cases h with
    | none => rfl
    | @power mark sign negative digits hm hs hd =>
      have hi : scanInt (sign ++ (digits ++ [])) =
          some (signedValue negative (digitsValue digits), []) := scanInt_append hs hd trivial
      rw [List.append_nil] at hi
      rw [readPower, if_pos hm, hi]
      rfl

theorem IsExponent.stops (h : IsExponent tail written) : Stops isNumberChar tail := by
  cases h with
  | none => trivial
  | power hm hs hd => rcases hm with rfl | rfl <;> rfl

theorem Decimal.read_of_point (hw : scanDigits text = (whole, '.' :: rest)) :
    read text = if whole.isEmpty && (scanDigits rest).1.isEmpty then none
      else (readPower (scanDigits rest).2).map (decimalOf whole (scanDigits rest).1) := by
  simp only [read, hw]
  rfl

theorem Decimal.read_of_no_point (hw : scanDigits text = (whole, rest))
    (hn : ∀ tail, rest ≠ '.' :: tail) :
    read text = if whole.isEmpty then none else (readPower rest).map (decimalOf whole []) := by
  unfold read
  rw [hw]
  dsimp only
  split
  · exact absurd rfl (hn _)
  · simp only [List.isEmpty_nil, Bool.and_true]
    rfl

theorem IsExponent.ne_point (h : IsExponent tail written) (rest : List Char) :
    tail ≠ '.' :: rest := by
  have hs := h.stops
  rintro rfl
  cases hs

theorem Decimal.read_append (hm : IsMantissa mantissa whole fraction)
    (he : IsExponent tail power) :
    read (mantissa ++ tail) = some (decimalOf whole fraction (power.getD 0)) := by
  have hpower : readPower tail = some (power.getD 0) := readPower_eq_some_iff.2 ⟨_, he, rfl⟩
  have hdigit := he.stops.weaken fun c => not_isDigit_of_not_isNumberChar
  cases hm with
  | whole hw =>
    rw [read_of_no_point (scanDigits_run hw.2 hdigit) he.ne_point, hpower,
      List.isEmpty_eq_false_iff.2 hw.1]
    rfl
  | @point whole fraction hw hf =>
    have hpoint : Stops Char.isDigit ('.' :: (fraction ++ tail)) := rfl
    rw [List.append_assoc, List.cons_append, read_of_point (scanDigits_run hw.2 hpoint),
      scanDigits_run hf hdigit, List.isEmpty_eq_false_iff.2 hw.1, hpower]
    rfl
  | @fraction fraction hf =>
    have hpoint : scanDigits ('.' :: (fraction ++ tail)) = ([], '.' :: (fraction ++ tail)) := rfl
    rw [List.cons_append, read_of_point hpoint, scanDigits_run hf.2 hdigit,
      List.isEmpty_eq_false_iff.2 hf.1, hpower]
    rfl

theorem scanDigits_cases (text : List Char) :
    ∃ digits rest, scanDigits text = (digits, rest) ∧ text = digits ++ rest ∧
      (∀ c ∈ digits, c.isDigit = true) :=
  ⟨_, _, rfl, (scanDigits_append text).symm, fun _ => mem_takeWhile⟩

theorem Decimal.read_eq_some (h : read text = some d) :
    ∃ mantissa whole fraction tail power, IsMantissa mantissa whole fraction ∧
      IsExponent tail power ∧ text = mantissa ++ tail ∧
      d = decimalOf whole fraction (power.getD 0) := by
  obtain ⟨whole, rest, hw, rfl, hwhole⟩ := scanDigits_cases text
  by_cases hpoint : ∃ inner, rest = '.' :: inner
  · obtain ⟨inner, rfl⟩ := hpoint
    obtain ⟨fraction, tail, hf, rfl, hfraction⟩ := scanDigits_cases inner
    rw [read_of_point hw, hf] at h
    dsimp only at h
    split at h
    · cases h
    · rename_i hne
      obtain ⟨value, hp, rfl⟩ := Option.map_eq_some_iff.1 h
      obtain ⟨power, he, rfl⟩ := readPower_eq_some_iff.1 hp
      cases whole with
      | nil =>
        have hdigits : IsDigits fraction := ⟨fun hn => hne (by rw [hn]; rfl), hfraction⟩
        exact ⟨_, _, _, _, _, .fraction hdigits, he, rfl, rfl⟩
      | cons c whole =>
        refine ⟨_, _, _, _, _, .point ⟨List.cons_ne_nil _ _, hwhole⟩ hfraction, he, ?_, rfl⟩
        exact (List.append_assoc (c :: whole) ('.' :: fraction) tail).symm
  · rw [read_of_no_point hw fun inner he => hpoint ⟨inner, he⟩] at h
    split at h
    · cases h
    · rename_i hne
      obtain ⟨value, hp, rfl⟩ := Option.map_eq_some_iff.1 h
      obtain ⟨power, he, rfl⟩ := readPower_eq_some_iff.1 hp
      have hdigits : IsDigits whole := ⟨fun hn => hne (List.isEmpty_iff.2 hn), hwhole⟩
      exact ⟨_, _, _, _, _, .whole hdigits, he, rfl, rfl⟩

theorem IsMantissa.head (h : IsMantissa mantissa before behind) :
    ∃ c tail, mantissa = c :: tail ∧ isNumberChar c = true := by
  cases h with
  | whole hw =>
    obtain ⟨c, tail, rfl, hc⟩ := hw.head
    exact ⟨c, tail, rfl, Bool.or_eq_true_iff.2 (.inl hc)⟩
  | point hw hf =>
    obtain ⟨c, tail, rfl, hc⟩ := hw.head
    exact ⟨c, _, rfl, Bool.or_eq_true_iff.2 (.inl hc)⟩
  | fraction hf => exact ⟨'.', _, rfl, rfl⟩

/-- A text that starts with neither sign is read as it is. -/
theorem Binary64.read_of_head (hc : isNumberChar c = true) :
    read (c :: rest) = readUnsigned false (c :: rest) := by
  unfold read
  split
  · rename_i he
    cases he
    cases hc
  · rename_i he
    cases he
    cases hc
  · rfl

/-- Every decimal text is read as the double that its number is converted to. -/
theorem IsDecimal.read (h : IsDecimal text negative d) :
    Binary64.read text = some (.signed negative (.ofDecimal d)) := by
  cases h with | @intro sign negative mantissa whole fraction tail power hs hm he =>
  have hunsigned (negative : Bool) : Binary64.readUnsigned negative (mantissa ++ tail) =
      some (.signed negative (.ofDecimal (decimalOf whole fraction (power.getD 0)))) := by
    rw [Binary64.readUnsigned, Decimal.read_append hm he]
  cases hs with
  | none =>
    obtain ⟨c, tail, rfl, hc⟩ := hm.head
    exact (Binary64.read_of_head hc).trans (hunsigned false)
  | plus => exact hunsigned false
  | minus => exact hunsigned true

theorem Binary64.readUnsigned_finite (h : readUnsigned negative text = some x)
    (hf : x.isFinite = true) :
    ∃ mantissa whole fraction tail power, IsMantissa mantissa whole fraction ∧
      IsExponent tail power ∧ text = mantissa ++ tail ∧
      x = .signed negative (.ofDecimal (decimalOf whole fraction (power.getD 0))) := by
  unfold readUnsigned at h
  split at h
  case h_1 d hd =>
    cases h
    obtain ⟨mantissa, whole, fraction, tail, power, hm, he, rfl, rfl⟩ := Decimal.read_eq_some hd
    exact ⟨mantissa, whole, fraction, tail, power, hm, he, rfl, rfl⟩
  case h_2 =>
    -- The words stand for doubles that are not finite.
    dsimp only at h
    split at h
    · cases h
      cases hf
    · split at h
      · cases h
        cases hf
      · cases h

/-- Only decimal texts are read as finite doubles. -/
theorem Binary64.isDecimal_of_read (h : read text = some x) (hf : x.isFinite = true) :
    ∃ negative d, IsDecimal text negative d ∧ x = .signed negative (.ofDecimal d) := by
  unfold read at h
  split at h
  all_goals obtain ⟨mantissa, whole, fraction, tail, power, hm, he, rfl, rfl⟩ :=
    readUnsigned_finite h hf
  · exact ⟨true, _, .intro .minus hm he, rfl⟩
  · exact ⟨false, _, .intro .plus hm he, rfl⟩
  · exact ⟨false, _, .intro .none hm he, rfl⟩

theorem IsDigits.isDecimalChar (hd : ∀ c ∈ digits, c.isDigit = true) :
    ∀ c ∈ digits, isDecimalChar c = true :=
  fun c hc => Bool.or_eq_true_iff.2 (.inl (hd c hc))

theorem isDecimalChar_cons (hc : isDecimalChar c = true)
    (h : ∀ d ∈ text, isDecimalChar d = true) : ∀ d ∈ c :: text, isDecimalChar d = true :=
  List.forall_mem_cons.2 ⟨hc, h⟩

theorem IsSign.chars (h : IsSign sign negative) : ∀ c ∈ sign, isDecimalChar c = true := by
  cases h with
  | none => exact List.forall_mem_nil _
  | plus => exact isDecimalChar_cons rfl (List.forall_mem_nil _)
  | minus => exact isDecimalChar_cons rfl (List.forall_mem_nil _)

theorem IsMantissa.chars (h : IsMantissa mantissa before behind) :
    ∀ c ∈ mantissa, isDecimalChar c = true := by
  cases h with
  | whole hw => exact IsDigits.isDecimalChar hw.2
  | point hw hf =>
    intro c hc
    rcases List.mem_append.1 hc with hc | hc
    · exact IsDigits.isDecimalChar hw.2 c hc
    · exact isDecimalChar_cons rfl (IsDigits.isDecimalChar hf) c hc
  | fraction hf => exact isDecimalChar_cons rfl (IsDigits.isDecimalChar hf.2)

theorem IsExponent.chars (h : IsExponent tail written) : ∀ c ∈ tail, isDecimalChar c = true := by
  cases h with
  | none => exact List.forall_mem_nil _
  | power hm hs hd =>
    refine isDecimalChar_cons (by rcases hm with rfl | rfl <;> rfl) fun c hc => ?_
    exact (List.mem_append.1 hc).elim (hs.chars c) (IsDigits.isDecimalChar hd.2 c)

theorem IsDecimal.chars (h : IsDecimal text negative d) : ∀ c ∈ text, isDecimalChar c = true := by
  cases h with | intro hs hm he =>
  intro c hc
  rcases List.mem_append.1 hc with hc | hc
  · exact hs.chars c hc
  · exact (List.mem_append.1 hc).elim (hm.chars c) (he.chars c)

theorem IsDecimal.ne_nil (h : IsDecimal text negative d) : text ≠ [] := by
  cases h with | intro hs hm he =>
  obtain ⟨c, tail, rfl, -⟩ := hm.head
  simp

end Eligibility
