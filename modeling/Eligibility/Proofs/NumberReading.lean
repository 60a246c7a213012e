import Eligibility.Proofs.ReadingError
import Eligibility.Proofs.ShortestDigits

namespace Eligibility
set_option autoImplicit true

/-- The numeral is read as the double nearest to the number that it writes. -/
def Numeral.IsReadNearest (n : Numeral) : Prop :=
  n.toBinary64? = some (.signed n.negative (.ofDecimal n.decimal))

/-- The two doubles have one sign and are the same or at most so many doubles apart. -/
def Binary64.CloseTo (steps : Nat) : Binary64 → Binary64 → Prop
  | .signed negative x, .signed negative' y => negative = negative' ∧ x.CloseTo steps y
  | _, _ => False

/-- How a finite double comes back from its shortest digits: with its sign and at most two doubles
away. It comes back as it is where the reader rounds as it should, and so it does where the digits
make up a small integer with a small power of ten. -/
structure Binary64.IsNearlyKept (x y : Binary64) : Prop where
  close : y.CloseTo 2 x
  nearest : ∀ n, Json.ofBinary64 x = .numeral n → n.IsReadNearest → y = x
  short : ∀ n, Json.ofBinary64 x = .numeral n → n.digits ≤ 2 ^ 53 →
    n.decimal.exponent.natAbs ≤ 22 → y = x

variable {m x : Magnitude} {n : Numeral} {d : Decimal}

/-- The layout of a decimal of seventeen digits has no more of them. -/
theorem Numeral.digits_ofDecimal_lt (negative : Bool) (h : d.significand ≤ powerOfTen 17) :
    (ofDecimal negative d).digits < 2 ^ 64 := by
  have hlarge : powerOfTen 17 < 2 ^ 64 := by decide
  have hdigits := Nat.lt_of_le_of_lt h hlarge
  obtain ⟨significand, exponent⟩ := d
  unfold ofDecimal
  dsimp only
  split
  case isTrue hleading =>
    cases exponent with
    | negSucc => exact hdigits
    | ofNat power =>
      have hpos : 0 < (decimalDigits significand).length :=
        List.length_pos_iff.2 Nat.toDigits_ne_nil
      have hlength := (length_decimalDigits_le_iff hpos).1 (Nat.le_refl _)
      generalize (decimalDigits significand).length = length at hleading hlength
      have hfew : length + (power + 1) ≤ 17 := by
        have hpower : (Int.ofNat power : Int) = power := rfl
        omega
      calc
        significand * powerOfTen (power + 1) < powerOfTen length * powerOfTen (power + 1) :=
          Nat.mul_lt_mul_of_pos_right hlength (powerOfTen_pos _)
        _ = powerOfTen (length + (power + 1)) := (Nat.pow_add 10 _ _).symm
        _ ≤ powerOfTen 17 := powerOfTen_mono hfew
        _ < 2 ^ 64 := hlarge
  case isFalse => exact hdigits

/-- The layout keeps the power of ten of the last digit, or appends a zero behind the point. -/
theorem Numeral.exponent_ofDecimal (negative : Bool) (d : Decimal) :
    (ofDecimal negative d).decimal.exponent = d.exponent ∨
      (ofDecimal negative d).decimal.exponent = -1 := by
  obtain ⟨significand, exponent⟩ := d
  unfold ofDecimal
  dsimp only
  split
  case isTrue =>
    cases exponent with
    | ofNat power => exact .inr rfl
    | negSucc power =>
      left
      simp only [decimal, Option.getD_none]
      omega
  case isFalse =>
    have hlength : 0 < (decimalDigits significand).length :=
      List.length_pos_iff.2 Nat.toDigits_ne_nil
    left
    simp only [decimal, Option.getD_some]
    omega

theorem Numeral.decimal_eta (n : Numeral) : n.decimal = ⟨n.digits, n.decimal.exponent⟩ := rfl

theorem Numeral.size?_of_lt (h : n.digits < 2 ^ 64) :
    n.size? = Magnitude.ofParts? n.digits n.decimal.exponent := by
  rw [size?, parts_of_lt h]

theorem Magnitude.ofParts?_isSome (hs : significand < 2 ^ 64)
    (h : (ofDecimal ⟨significand, exponent⟩).rank + 2 < infinityRank) :
    (ofParts? significand exponent).isSome := by
  by_cases hzero : significand = 0
  · rw [hzero, ofParts?_zero]
    rfl
  cases exponent with
  | negSucc power => rfl
  | ofNat power =>
    have hpos := Nat.pos_of_ne_zero hzero
    have hpower : power ≤ maxTen :=
      Int.ofNat_le.1 (exponent_le_of_finite (d := ⟨significand, .ofNat power⟩) hpos (by omega))
    have hclose := (product_closeTo hpos hs hpower).1
    rw [ofParts?_ofNat hpower, if_neg (ne_infinity_iff.2 (by omega))]
    rfl

theorem Numeral.size?_ofDecimal (negative : Bool) (d : Decimal) :
    (ofDecimal negative d).size? = (ofDecimal false d).size? := by
  obtain ⟨significand, exponent⟩ := d
  unfold ofDecimal
  dsimp only
  split
  case isTrue =>
    cases exponent with
    | ofNat => rfl
    | negSucc => rfl
  case isFalse => rfl

/-- The digits of the two largest doubles are not read as infinity either. -/
theorem Magnitude.size?_isSome_of_top (h : infinityRank ≤ m.rank + 2)
    (hfinite : m.rank < infinityRank) : (Numeral.ofDecimal false m.shortest).size?.isSome := by
  have htop : m = ⟨infinityRank - 1, Nat.sub_le _ _⟩ ∨ m = ⟨infinityRank - 2, Nat.sub_le _ _⟩ := by
    cases m with
    | mk rank hle =>
      simp only [mk.injEq]
      simp only at h hfinite
      omega
  rcases htop with rfl | rfl
  · decide +kernel
  · decide +kernel

/-- The shortest digits of a finite size are read as a size that is at most two doubles away. -/
theorem Magnitude.size?_shortest (hfinite : m.rank < infinityRank) (negative : Bool) :
    ∃ x, (Numeral.ofDecimal negative m.shortest).size? = some x ∧ x.CloseTo 2 m := by
  obtain ⟨hdigits, hexponent⟩ := m.shortest_bounds
  have hlt := Numeral.digits_ofDecimal_lt negative hdigits
  have hlow := Numeral.exponent_ofDecimal negative m.shortest
  have hvalue : ofDecimal (Numeral.ofDecimal negative m.shortest).decimal = m :=
    (Numeral.ofDecimal_decimal negative m.shortest).trans m.ofDecimal_shortest
  have hsome : (Numeral.ofDecimal negative m.shortest).size?.isSome := by
    by_cases htop : infinityRank ≤ m.rank + 2
    · rw [Numeral.size?_ofDecimal]
      exact size?_isSome_of_top htop hfinite
    · rw [Numeral.size?_of_lt hlt]
      apply ofParts?_isSome hlt
      rw [← Numeral.decimal_eta, hvalue]
      omega
  obtain ⟨x, hx⟩ := Option.isSome_iff_exists.1 hsome
  refine ⟨x, hx, ?_⟩
  rw [Numeral.size?_of_lt hlt] at hx
  have hclose := ofParts?_closeTo hlt (by omega) hx
  rwa [← Numeral.decimal_eta, hvalue] at hclose

/-- A finite double is written as a number and read back nearly as it was. -/
theorem Json.toBinary64_ofBinary64 {x : Binary64} (hx : x.isFinite = true) :
    ∃ y, (ofBinary64 x).toBinary64 = .ok y ∧ x.IsNearlyKept y := by
  cases x with
  | nan => cases hx
  | signed negative m =>
    have hfinite := of_decide_eq_true hx
    obtain ⟨size, hsize, hclose⟩ := m.size?_shortest hfinite negative
    have hwritten : ofBinary64 (.signed negative m) =
        .numeral (.ofDecimal negative m.shortest) := if_pos hfinite
    have hvalue := (Numeral.ofDecimal_decimal negative m.shortest).trans m.ofDecimal_shortest
    have hsign := Numeral.ofDecimal_negative negative m.shortest
    have hlt := Numeral.digits_ofDecimal_lt negative m.shortest_bounds.1
    rw [hwritten]
    generalize Numeral.ofDecimal negative m.shortest = n at hsize hwritten hvalue hsign hlt ⊢
    have hread : n.toBinary64? = some (.signed negative size) := by
      rw [Numeral.toBinary64?, hsize, hsign]
      rfl
    refine ⟨.signed negative size, ?_, ?_⟩
    · rw [toBinary64, hread]
    · constructor
      · exact ⟨rfl, hclose⟩
      · intro n' hn hnearest
        obtain rfl := Json.numeral.inj (hwritten.symm.trans hn)
        rw [Numeral.IsReadNearest, hread, hsign, hvalue] at hnearest
        exact Option.some.inj hnearest
      · intro n' hn hshort hpower
        obtain rfl := Json.numeral.inj (hwritten.symm.trans hn)
        rw [Numeral.size?_of_lt hlt] at hsize
        have hexact := Magnitude.ofParts?_exact hshort (by omega) (by omega) hsize
        rw [hexact, ← Numeral.decimal_eta, hvalue]

end Eligibility
