import Eligibility.Proofs.RoundingError
import Eligibility.Proofs.Scaling

namespace Eligibility
set_option autoImplicit true

/-- The one size is the other or at most so many doubles away from it. -/
def Magnitude.CloseTo (steps : Nat) (x y : Magnitude) : Prop :=
  x.rank ≤ y.rank + steps ∧ y.rank ≤ x.rank + steps

def Magnitude.units (x : Magnitude) : ℚ :=
  unitsOfRank x.rank

variable {x y : Magnitude} {numerator denominator numerator' denominator' : Nat}

theorem Magnitude.CloseTo.refl (steps : Nat) (x : Magnitude) : x.CloseTo steps x :=
  ⟨Nat.le_add_right _ _, Nat.le_add_right _ _⟩

theorem Magnitude.closeTo_nearest (hd : 0 < denominator) (hd' : 0 < denominator')
    (h : Within factor slack (numerator / denominator) (numerator' / denominator'))
    (hf : 1 ≤ factor) (hs : 0 ≤ slack)
    (hlt : (factor - 1) * (2 ^ 53 - 1 / 2) + slack < (steps : Nat)) :
    (nearest numerator denominator).CloseTo steps (nearest numerator' denominator') := by
  have hle := nearestRank_le_add hd hd' h hf hs hlt
  have hge := nearestRank_le_add hd' hd h.symm hf hs hlt
  simp only [CloseTo, nearest]
  omega

theorem Magnitude.rank_nearest (h : (nearest numerator denominator).rank < infinityRank) :
    (nearest numerator denominator).rank = nearestRank numerator denominator := by
  simp only [nearest] at h ⊢
  omega

theorem Magnitude.within_ofNat (hpos : 0 < n) (h : (ofNat n).rank < infinityRank) :
    Within (1 + roundoff) 0 (ofNat n).units (n * unitsPerOne) := by
  have hone : 2 ^ 52 * 1 ≤ unitsPerOne := by decide
  have hnormal : 2 ^ 52 * 1 ≤ n * unitsPerOne := hone.trans (Nat.le_mul_of_pos_left _ hpos)
  have hwithin := within_nearestRank_of_normal Nat.one_pos hnormal
  rw [← rank_nearest h, Nat.cast_one, div_one, Nat.cast_mul] at hwithin
  exact hwithin

theorem powerOfTen_cast (power : Nat) : (powerOfTen power : ℚ) = 10 ^ power := by
  rw [powerOfTen, Nat.pow_eq, Nat.cast_pow, Nat.cast_ofNat]

theorem Magnitude.rank_tenTo_lt (h : power ≤ maxTen) : (tenTo power).rank < infinityRank := by
  have hmax : (tenTo maxTen).rank < infinityRank := by decide +kernel
  exact Nat.lt_of_le_of_lt (rank_ofNat_mono (powerOfTen_mono h)) hmax

theorem Magnitude.within_tenTo (h : power ≤ maxTen) :
    Within (1 + roundoff) 0 (tenTo power).units (10 ^ power * unitsPerOne) := by
  have hwithin := within_ofNat (powerOfTen_pos power) (rank_tenTo_lt h)
  rwa [powerOfTen_cast] at hwithin

/-- The powers of ten up to the twenty-second are doubles. -/
theorem Magnitude.unitsOfRank_tenTo (h : power ≤ 22) :
    unitsOfRank (tenTo power).rank = 10 ^ power * unitsPerOne := by
  have hten : powerOfTen power = 5 ^ power * 2 ^ power := Nat.mul_pow 5 2 power
  have hfive : 5 ^ power ≤ 2 * binadeSize :=
    (Nat.pow_le_pow_right (by decide) h).trans (by decide)
  have hlt : 5 ^ power * 2 ^ power < 2 ^ 74 := by
    rw [← Nat.mul_pow]
    exact Nat.lt_of_le_of_lt (Nat.pow_le_pow_right (by decide) h) (by decide)
  rw [tenTo, hten, unitsOfRank_ofNat hfive hlt (by decide), ← Nat.mul_pow]

theorem unitsPerOne_cast_pos : (0 : ℚ) < unitsPerOne :=
  Nat.cast_pos.2 unitsPerOne_pos

theorem Magnitude.units_nonneg (x : Magnitude) : 0 ≤ x.units :=
  Nat.cast_nonneg _

theorem Magnitude.units_tenTo_pos (power : Nat) : 0 < (tenTo power).units :=
  Nat.cast_pos.2 (Nat.lt_of_lt_of_le unitsPerOne_pos (unitsPerOne_le_tenTo power))

/-- A product has the relative errors of both factors. -/
theorem Magnitude.within_product {a b : ℚ} (hx : Within factor 0 x.units (a * unitsPerOne))
    (hy : Within factor' 0 y.units (b * unitsPerOne)) (hf : 1 ≤ factor) (hf' : 1 ≤ factor')
    (ha : 0 ≤ a) : Within (factor * factor') 0 (x.units * y.units / unitsPerOne)
      (a * b * unitsPerOne) := by
  have hone := unitsPerOne_cast_pos
  have hleft := hx.mul_right (div_nonneg y.units_nonneg (le_of_lt hone))
  have hright := hy.mul_right ha
  have hmiddle : a * unitsPerOne * (y.units / unitsPerOne) = y.units * a := by
    field_simp
  rw [hmiddle] at hleft
  have hproduct := hleft.trans hright hf hf' (by simp) (by simp)
  have hslack : (0 : ℚ) * (y.units / unitsPerOne) * factor' + 0 * a * factor = 0 := by ring
  have hresult : b * unitsPerOne * a = a * b * unitsPerOne := by ring
  rwa [hslack, hresult, ← mul_div_assoc] at hproduct

/-- A quotient has the relative errors of both parts. -/
theorem Magnitude.within_quotient {a b : ℚ} (hx : Within factor 0 x.units (a * unitsPerOne))
    (hy : Within factor' 0 y.units (b * unitsPerOne)) (hf : 1 ≤ factor) (hf' : 1 ≤ factor')
    (ha : 0 ≤ a) (hb : 0 < b) (hpos : 0 < y.units) :
    Within (factor * factor') 0 (x.units * unitsPerOne / y.units) (a * unitsPerOne / b) := by
  have hone := unitsPerOne_cast_pos
  have hleft := hx.mul_right (div_nonneg (le_of_lt hone) (le_of_lt hpos))
  have hnumerator : 0 ≤ a * unitsPerOne * unitsPerOne :=
    mul_nonneg (mul_nonneg ha (le_of_lt hone)) (le_of_lt hone)
  have hright := hy.const_div hnumerator hpos (mul_pos hb hone)
  have hmiddle : a * unitsPerOne * (unitsPerOne / y.units) =
      a * unitsPerOne * unitsPerOne / y.units := by ring
  rw [hmiddle] at hleft
  have hquotient := hleft.trans hright hf hf' (by simp) le_rfl
  have hslack : (0 : ℚ) * (unitsPerOne / y.units) * factor' + 0 * factor = 0 := by ring
  have hresult : a * unitsPerOne * unitsPerOne / (b * unitsPerOne) = a * unitsPerOne / b := by
    field_simp
  rwa [hslack, hresult, ← mul_div_assoc] at hquotient

/-- Two roundings before the last one are less than two doubles. -/
theorem two_roundoffs :
    ((1 + roundoff) * (1 + roundoff) - 1) * (2 ^ 53 - 1 / 2) + 0 < ((2 : Nat) : ℚ) := by
  norm_num [roundoff]

theorem one_le_roundoff : 1 ≤ 1 + roundoff := by
  norm_num [roundoff]

theorem one_le_roundoffs : 1 ≤ (1 + roundoff) * (1 + roundoff) := by
  norm_num [roundoff]

theorem Magnitude.product_closeTo (hpos : 0 < significand) (hs : significand < 2 ^ 64)
    (h : power ≤ maxTen) : ((ofNat significand).mul (tenTo power)).CloseTo 2
      (ofDecimal ⟨significand, .ofNat power⟩) := by
  rw [ofDecimal_ofNat]
  apply closeTo_nearest unitsPerOne_pos Nat.one_pos _ one_le_roundoffs le_rfl two_roundoffs
  have hproduct := within_product (within_ofNat hpos (rank_ofNat_lt hs)) (within_tenTo h)
    one_le_roundoff one_le_roundoff (Nat.cast_nonneg _)
  push_cast
  rwa [div_one]

theorem Magnitude.quotient_closeTo (hpos : 0 < significand) (hs : significand < 2 ^ 64)
    (h : power + 1 ≤ maxTen) : ((ofNat significand).div (tenTo (power + 1))).CloseTo 2
      (ofDecimal ⟨significand, .negSucc power⟩) := by
  have hten := units_tenTo_pos (power + 1)
  rw [ofDecimal_negSucc]
  apply closeTo_nearest (Nat.cast_pos.1 hten) (Nat.pow_pos (by decide)) _ one_le_roundoffs le_rfl
    two_roundoffs
  have hquotient := within_quotient (within_ofNat hpos (rank_ofNat_lt hs)) (within_tenTo h)
    one_le_roundoff one_le_roundoff (Nat.cast_nonneg _) (by positivity) hten
  push_cast
  exact hquotient

/-- The highest power of ten is a tenth of the roundoff away from its double. -/
theorem Magnitude.within_maxTen :
    Within (1 + 99 / 1000 * roundoff) 0 (tenTo maxTen).units (10 ^ maxTen * unitsPerOne) := by
  have hbounds : unitsOfRank (tenTo maxTen).rank * (1000 * 2 ^ 53) ≤
        powerOfTen maxTen * unitsPerOne * (1000 * 2 ^ 53 + 99) ∧
      powerOfTen maxTen * unitsPerOne * (1000 * 2 ^ 53) ≤
        unitsOfRank (tenTo maxTen).rank * (1000 * 2 ^ 53 + 99) := by decide +kernel
  have hwithin (ten rounded : Nat) (hle : rounded * (1000 * 2 ^ 53) ≤ ten * (1000 * 2 ^ 53 + 99))
      (hge : ten * (1000 * 2 ^ 53) ≤ rounded * (1000 * 2 ^ 53 + 99)) :
      Within (1 + 99 / 1000 * roundoff) 0 rounded ten := by
    have hle' : (rounded * (1000 * 2 ^ 53) : ℚ) ≤ ten * (1000 * 2 ^ 53 + 99) := mod_cast hle
    have hge' : (ten * (1000 * 2 ^ 53) : ℚ) ≤ rounded * (1000 * 2 ^ 53 + 99) := mod_cast hge
    unfold Within roundoff
    constructor <;> linarith
  have h := hwithin _ _ hbounds.1 hbounds.2
  rwa [Nat.cast_mul, powerOfTen_cast] at h

/-- What one, divided by the highest power of ten, is near to: nine tenths of a power of two. -/
theorem Magnitude.unitsPerOne_div_maxTen :
    8988 * unitsOfRank (tenTo maxTen).rank ≤ 10000 * (unitsPerOne * 2 ^ 1023) ∧
      10000 * (unitsPerOne * 2 ^ 1023) ≤ 8989 * unitsOfRank (tenTo maxTen).rank := by
  decide +kernel

/-- The errors of a rounding and of a second one behind a division are not both large: where the
first gap, divided, is `scaled` and the second one is `gap`, these two differ. -/
theorem within_of_gaps {x q t gap scaled : ℚ} (hx : |x - q| ≤ gap / 2) (ht : |q - t| ≤ scaled / 2)
    (hgap : 2 ^ 52 * gap ≤ x) (hscaled : 2 ^ 52 * scaled ≤ q)
    (h : 10000 * scaled ≤ 8989 * gap ∨ 2 * 8988 * gap ≤ 10000 * scaled) :
    Within (1 + 19 / 10 * roundoff) 0 x t := by
  obtain ⟨hx1, hx2⟩ := abs_le.1 hx
  obtain ⟨ht1, ht2⟩ := abs_le.1 ht
  unfold Within roundoff
  rcases h with h | h
  · constructor <;> linarith
  · constructor <;> linarith

/-- The same where a first rounding is divided by what is nearly a power of two, the scale. -/
theorem within_of_scaled_gaps {first second exact quotient gap gap' scale : ℚ}
    (hfirst : |first - exact| ≤ gap / 2) (hsecond : |second - first * quotient| ≤ gap' / 2)
    (hsize : 2 ^ 52 * gap ≤ first) (hbits : first ≤ 2 ^ 53 * gap) (hsize' : 2 ^ 52 * gap' ≤ second)
    (hquotient : 0 ≤ quotient) (hgap : 0 < gap) (hscale : 0 < scale)
    (hlow : 8988 ≤ 10000 * (quotient * scale)) (hhigh : 10000 * (quotient * scale) ≤ 8989)
    (h : gap' * scale < 2 * gap → gap' * scale = gap ∨ 2 * (gap' * scale) ≤ gap) :
    Within (1 + 19 / 10 * roundoff) 0 second (exact * quotient) := by
  have hlow' : 8988 * gap ≤ 10000 * (gap * quotient) * scale := by
    linarith [mul_le_mul_of_nonneg_left hlow (le_of_lt hgap)]
  have hhigh' : 10000 * (gap * quotient) * scale ≤ 8989 * gap := by
    linarith [mul_le_mul_of_nonneg_left hhigh (le_of_lt hgap)]
  have hdistance : |first * quotient - exact * quotient| ≤ gap * quotient / 2 := by
    rw [← sub_mul, abs_mul, abs_of_nonneg hquotient]
    linarith [mul_le_mul_of_nonneg_right hfirst hquotient]
  apply within_of_gaps hsecond hdistance hsize'
  · linarith [mul_le_mul_of_nonneg_right hsize hquotient]
  · have hsmall : gap' * scale < 2 * gap := by
      have hup := (abs_le.1 hsecond).2
      have hbits' := mul_le_mul_of_nonneg_right hbits hquotient
      have hgap' : (2 ^ 52 - 1 / 2) * gap' ≤ 2 ^ 53 * (gap * quotient) := by linarith
      have hscaled := mul_le_mul_of_nonneg_right hgap' (le_of_lt hscale)
      linarith
    rcases h hsmall with heq | hle
    · left
      apply le_of_mul_le_mul_right _ hscale
      linarith
    · right
      apply le_of_mul_le_mul_right _ hscale
      linarith

/-- Gaps are powers of two: of two that do not differ by the scale, the one is half of the other
or less. -/
theorem rankGap_dichotomy (h : rankGap m * 2 ^ scale < 2 * rankGap n) :
    rankGap m * 2 ^ scale = rankGap n ∨ 2 * (rankGap m * 2 ^ scale) ≤ rankGap n := by
  unfold rankGap at h ⊢
  rw [← Nat.pow_add, ← Nat.pow_succ', Nat.pow_lt_pow_iff_right (by decide)] at h
  rcases Nat.lt_or_eq_of_le (Nat.le_of_lt_succ h) with hlt | heq
  · right
    rw [← Nat.pow_add, ← Nat.pow_succ']
    exact Nat.pow_le_pow_right (by decide) hlt
  · left
    rw [← heq, Nat.pow_add]

/-- A normal number that is rounded, divided by what is nearly a power of two, and rounded to a
normal one again has less than two roundoffs in all. -/
theorem within_nearestRank_twice {divisor unit : Nat} (hd : 0 < divisor)
    (hnormal : binadeSize ≤ nearestRank numerator 1)
    (hnormal' : binadeSize ≤
      nearestRank (unitsOfRank (nearestRank numerator 1) * unit) divisor)
    (hlow : 8988 * divisor ≤ 10000 * (unit * 2 ^ scale))
    (hhigh : 10000 * (unit * 2 ^ scale) ≤ 8989 * divisor) :
    Within (1 + 19 / 10 * roundoff) 0
      (unitsOfRank (nearestRank (unitsOfRank (nearestRank numerator 1) * unit) divisor))
      (numerator * (unit / divisor)) := by
  have hcast : (0 : ℚ) < divisor := Nat.cast_pos.2 hd
  have hfirst := abs_sub_nearestRank_le numerator Nat.one_pos
  have hsecond := abs_sub_nearestRank_le (unitsOfRank (nearestRank numerator 1) * unit) hd
  rw [Nat.cast_one, div_one] at hfirst
  rw [Nat.cast_mul, mul_div_assoc] at hsecond
  have hsize := le_unitsOfRank hnormal
  have hsize' := le_unitsOfRank hnormal'
  have hbits := (unitsOfRank_lt_succ _).le.trans (unitsOfRank_succ_le (nearestRank numerator 1))
  have hgap := rankGap_pos (nearestRank numerator 1)
  have hdichotomy (h : rankGap (nearestRank (unitsOfRank (nearestRank numerator 1) * unit)
      divisor) * 2 ^ scale < 2 * rankGap (nearestRank numerator 1)) := rankGap_dichotomy h
  have hlow' : (8988 * divisor : ℚ) ≤ 10000 * (unit * 2 ^ scale) := mod_cast hlow
  have hhigh' : (10000 * (unit * 2 ^ scale) : ℚ) ≤ 8989 * divisor := mod_cast hhigh
  have hproduct : 10000 * ((unit : ℚ) / divisor * 2 ^ scale) =
      10000 * (unit * 2 ^ scale) / divisor := by ring
  have hscale : (0 : ℚ) < 2 ^ scale := by positivity
  apply within_of_scaled_gaps hfirst hsecond (mod_cast hsize) (mod_cast hbits) (mod_cast hsize')
    (by positivity) (mod_cast hgap) hscale
  · rwa [hproduct, le_div_iff₀ hcast]
  · rwa [hproduct, div_le_iff₀ hcast]
  · intro h
    exact mod_cast hdichotomy (mod_cast h)

/-- A significand, divided by the highest power of ten, is rounded twice. -/
theorem Magnitude.within_div_maxTen (hlow : 3 ≤ significand) (hs : significand < 2 ^ 64) :
    Within (1 + 19 / 10 * roundoff) 0 ((ofNat significand).div (tenTo maxTen)).units
      (significand * unitsPerOne * (unitsPerOne / (tenTo maxTen).units)) := by
  have hfinite := rank_ofNat_lt hs
  have hten : 0 < unitsOfRank (tenTo maxTen).rank := Nat.cast_pos.1 (units_tenTo_pos maxTen)
  have hrank : ((ofNat significand).div (tenTo maxTen)).rank =
      nearestRank (unitsOfRank (ofNat significand).rank * unitsPerOne)
        (unitsOfRank (tenTo maxTen).rank) :=
    rank_nearest (Nat.lt_of_le_of_lt (rank_div_le (unitsPerOne_le_tenTo maxTen)) hfinite)
  have hfirst : (ofNat significand).rank = nearestRank (significand * unitsPerOne) 1 :=
    rank_nearest hfinite
  have hone : binadeSize ≤ (ofNat 3).rank := by decide +kernel
  have hthree : unitsOfRank binadeSize * unitsOfRank (tenTo maxTen).rank ≤
      unitsOfRank (ofNat 3).rank * unitsPerOne := by decide +kernel
  have hmono := rank_ofNat_mono hlow
  have hnormal := le_nearestRank (hthree.trans (Nat.mul_le_mul_right unitsPerOne
    (unitsOfRank_strictMono.monotone hmono))) hten
  rw [hfirst] at hmono hnormal
  rw [units, hrank, hfirst, ← Nat.cast_mul]
  exact within_nearestRank_twice hten (hone.trans hmono) hnormal unitsPerOne_div_maxTen.1
    unitsPerOne_div_maxTen.2

theorem Magnitude.quotient_maxTen (significand : Nat) :
    Within (1 + 99 / 1000 * roundoff) 0
      (significand * unitsPerOne * (unitsPerOne / (tenTo maxTen).units))
      (significand * unitsPerOne / 10 ^ maxTen) := by
  have hone := unitsPerOne_cast_pos
  have hnonneg : (0 : ℚ) ≤ significand * unitsPerOne * unitsPerOne :=
    mul_nonneg (mul_nonneg (Nat.cast_nonneg _) (le_of_lt hone)) (le_of_lt hone)
  have hten : (0 : ℚ) < 10 ^ maxTen := by
    rw [← powerOfTen_cast]
    exact Nat.cast_pos.2 (powerOfTen_pos _)
  have hquotient := within_maxTen.const_div hnonneg (units_tenTo_pos maxTen) (mul_pos hten hone)
  have hresult : (significand * unitsPerOne * unitsPerOne / (10 ^ maxTen * unitsPerOne) : ℚ) =
      significand * unitsPerOne / 10 ^ maxTen := mul_div_mul_right _ _ (ne_of_gt hone)
  rwa [hresult, mul_div_assoc] at hquotient

/-- A significand divided by the highest power of ten is less than two roundoffs away from the
quotient, apart from a part of a unit, of which a tenth is allowed for. -/
theorem Magnitude.within_significand_div_maxTen (hs : significand < 2 ^ 64) :
    ∃ factor slack, 1 ≤ factor ∧ 0 ≤ slack ∧
      (factor - 1) * (2 ^ 53 - 1 / 2) + slack / 10 < ((2 : Nat) : ℚ) ∧
      Within factor slack ((ofNat significand).div (tenTo maxTen)).units
        (significand * unitsPerOne / 10 ^ maxTen) := by
  have hmax := quotient_maxTen significand
  by_cases hsmall : significand ≤ 2 * binadeSize
  · have hrank : ((ofNat significand).div (tenTo maxTen)).rank =
        nearestRank (unitsOfRank (ofNat significand).rank * unitsPerOne)
          (unitsOfRank (tenTo maxTen).rank) :=
      rank_nearest (Nat.lt_of_le_of_lt (rank_div_le (unitsPerOne_le_tenTo maxTen))
        (rank_ofNat_lt hs))
    have hhalf := within_nearestRank_half (unitsOfRank (ofNat significand).rank * unitsPerOne)
      (Nat.cast_pos.1 (units_tenTo_pos maxTen))
    rw [← hrank, Nat.cast_mul, mul_div_assoc, unitsOfRank_ofNat_small hsmall, Nat.cast_mul] at hhalf
    have hwithin := hhalf.trans hmax one_le_roundoff (by norm_num [roundoff]) (by norm_num)
      le_rfl
    refine ⟨_, _, ?_, ?_, ?_, hwithin⟩ <;> norm_num [roundoff]
  · have hlow : 3 ≤ significand :=
      Nat.le_trans (by decide) (Nat.le_of_lt (Nat.lt_of_not_le hsmall))
    have hwithin := (within_div_maxTen hlow hs).trans hmax (by norm_num [roundoff])
      (by norm_num [roundoff]) le_rfl le_rfl
    refine ⟨_, _, ?_, ?_, ?_, hwithin⟩ <;> norm_num [roundoff]

theorem div_ten_pow_add (a : ℚ) (m n : Nat) :
    a / (10 ^ (m + n) : Nat) = a / 10 ^ m * (1 / 10 ^ n) := by
  rw [Nat.cast_pow, Nat.cast_ofNat, pow_add]
  field_simp

theorem Magnitude.div_tenTo (x : Magnitude) (h : power ≤ 22) :
    x.div (tenTo power) = nearest (unitsOfRank x.rank) (10 ^ power) := by
  rw [div, unitsOfRank_tenTo h, nearest_mul_right unitsPerOne_pos]

theorem Magnitude.quotients_closeTo (hs : significand < 2 ^ 64) (h : power < 22) :
    (((ofNat significand).div (tenTo maxTen)).div (tenTo (power + 1))).CloseTo 2
      (ofDecimal ⟨significand, .negSucc (maxTen + power)⟩) := by
  obtain ⟨factor, slack, hf, hslack, hlt, hwithin⟩ := within_significand_div_maxTen hs
  have hpow : (0 : ℚ) ≤ 1 / 10 ^ (power + 1) := by positivity
  have htenth : (1 : ℚ) / 10 ^ (power + 1) ≤ 1 / 10 := by
    apply one_div_le_one_div_of_le (by norm_num)
    exact le_self_pow₀ (by norm_num) (Nat.succ_ne_zero power)
  have hquotient := hwithin.mul_right hpow
  have hless : slack * (1 / 10 ^ (power + 1)) ≤ slack / 10 := by
    rw [div_eq_mul_one_div slack]
    exact mul_le_mul_of_nonneg_left htenth hslack
  rw [ofDecimal_negSucc, div_tenTo _ h, Nat.add_assoc]
  apply closeTo_nearest (Nat.pow_pos (by decide)) (Nat.pow_pos (by decide)) _ hf
    (mul_nonneg hslack hpow) (lt_of_le_of_lt (add_le_add (le_refl _) hless) hlt)
  have hlast (a : ℚ) : a / (10 ^ (power + 1) : Nat) = a * (1 / 10 ^ (power + 1)) := by
    rw [Nat.cast_pow, Nat.cast_ofNat, div_eq_mul_one_div]
  rw [hlast, div_ten_pow_add, Nat.cast_mul]
  exact hquotient

theorem Magnitude.zero_mul (y : Magnitude) : zero.mul y = zero := by
  have hzero : unitsOfRank zero.rank = 0 := rfl
  rw [mul, hzero, Nat.zero_mul]
  exact nearest_eq_zero unitsPerOne_pos

theorem Magnitude.zero_div_tenTo (power : Nat) : zero.div (tenTo power) = zero := by
  have hzero : unitsOfRank zero.rank = 0 := rfl
  rw [div, hzero, Nat.zero_mul]
  exact nearest_eq_zero (Nat.cast_pos.1 (units_tenTo_pos power))

theorem Magnitude.zero_divideByMaxTen (times : Nat) : zero.divideByMaxTen times = zero := by
  cases times with
  | zero => rfl
  | succ times => rw [divideByMaxTen, if_pos rfl]

theorem Magnitude.ofParts?_zero (exponent : Int) : ofParts? 0 exponent = some zero := by
  have hzero : ofNat 0 = zero := by decide
  cases exponent with
  | ofNat power =>
    by_cases hpower : power ≤ maxTen
    · rw [ofParts?_ofNat hpower, hzero, zero_mul, if_neg (by decide)]
    · simp only [ofParts?, if_neg hpower, if_true]
  | negSucc power => rw [ofParts?_negSucc, hzero, zero_divideByMaxTen, zero_div_tenTo]

/-- A significand of 64 bits is read, with its power of ten, as the double nearest to the number or
as one of the four that are next to this double. -/
theorem Magnitude.ofParts?_closeTo (hs : significand < 2 ^ 64) (he : -330 ≤ exponent)
    (h : ofParts? significand exponent = some x) :
    x.CloseTo 2 (ofDecimal ⟨significand, exponent⟩) := by
  by_cases hzero : significand = 0
  · rw [hzero, ofParts?_zero, Option.some.injEq] at h
    rw [hzero, ofDecimal_of_zero, ← h]
    exact .refl 2 zero
  have hpos := Nat.pos_of_ne_zero hzero
  cases exponent with
  | ofNat power =>
    by_cases hpower : power ≤ maxTen
    · rw [ofParts?_ofNat hpower] at h
      split at h
      · cases h
      · cases h
        exact product_closeTo hpos hs hpower
    · simp only [ofParts?, if_neg hpower, if_neg hzero] at h
      cases h
  | negSucc power =>
    rw [ofParts?_negSucc, Option.some.injEq] at h
    rw [← h]
    by_cases hpower : power < maxTen
    · rw [Nat.div_eq_of_lt hpower, Nat.mod_eq_of_lt hpower]
      exact quotient_closeTo hpos hs hpower
    · obtain ⟨rest, rfl⟩ := Nat.exists_eq_add_of_le (Nat.le_of_not_lt hpower)
      have hrest : rest < 22 := by
        unfold maxTen at he
        omega
      have hless : rest < maxTen := Nat.lt_trans hrest (by decide)
      have hdiv : (maxTen + rest) / maxTen = 1 := by
        rw [Nat.add_div_left _ (by decide), Nat.div_eq_of_lt hless]
      have hne : ofNat significand ≠ zero := by
        intro heq
        have hone : ¬ (ofNat 1).rank ≤ zero.rank := by decide +kernel
        have hrank := rank_ofNat_mono hpos
        rw [heq] at hrank
        exact hone hrank
      rw [hdiv, Nat.add_mod_left, Nat.mod_eq_of_lt hless, divideByMaxTen, if_neg hne]
      exact quotients_closeTo hs hrest

theorem Magnitude.mul_tenTo (x : Magnitude) (h : power ≤ 22) :
    x.mul (tenTo power) = nearest (unitsOfRank x.rank * 10 ^ power) 1 := by
  have hfactor : nearest (unitsOfRank x.rank * 10 ^ power * unitsPerOne) (1 * unitsPerOne) =
      nearest (unitsOfRank x.rank * 10 ^ power) 1 := nearest_mul_right unitsPerOne_pos
  rwa [Nat.one_mul, Nat.mul_assoc, ← unitsOfRank_tenTo h] at hfactor

/-- Where both the significand and the power of ten are doubles, nothing is lost before the one
rounding. -/
theorem Magnitude.ofParts?_exact (hs : significand ≤ 2 * binadeSize) (hlow : -22 ≤ exponent)
    (hhigh : exponent ≤ 22) (h : ofParts? significand exponent = some x) :
    x = ofDecimal ⟨significand, exponent⟩ := by
  cases exponent with
  | ofNat power =>
    have hpower : power ≤ 22 := Int.ofNat_le.1 hhigh
    rw [ofParts?_ofNat (hpower.trans (by decide))] at h
    split at h
    · cases h
    · rw [Option.some.injEq] at h
      rw [← h, mul_tenTo _ hpower, unitsOfRank_ofNat_small hs, ofDecimal_ofNat, Nat.mul_right_comm]
  | negSucc power =>
    have hpower : power + 1 ≤ 22 := by omega
    have hless : power < maxTen := Nat.lt_of_lt_of_le hpower (by decide)
    rw [ofParts?_negSucc, Option.some.injEq, Nat.div_eq_of_lt hless, Nat.mod_eq_of_lt hless] at h
    rw [← h, divideByMaxTen, div_tenTo _ hpower, unitsOfRank_ofNat_small hs, ofDecimal_negSucc]

end Eligibility
