import Mathlib.Tactic.Ring
import SweepReport.Numeral.Decimal
import SweepReport.Numeral.Shortest
import SweepReport.Proofs.Numeral.Digits

/-! The double nearest to a ratio. A ratio within the spread of a code is nearest to that code: half
a place on either side, and only a quarter below a power of two, where the places are half as
wide. -/
namespace SweepReport.Numeral

@[simp] theorem fractionSize_eq : fractionSize = 4503599627370496 := rfl

/-- A whole number within half the divisor is the rounded quotient; at half it has to be even. -/
theorem roundDiv_eq {num den n : Nat} (hden : 0 < den)
    (hlow : 2 * (n * den) ≤ 2 * num + den) (hhigh : 2 * num ≤ 2 * (n * den) + den)
    (htie : n % 2 = 0 ∨ 2 * (n * den) < 2 * num + den ∧ 2 * num < 2 * (n * den) + den) :
    roundDiv num den = n := by
  have hnum : num / den * den + num % den = num := Nat.div_add_mod' num den
  have hrest : num % den < den := Nat.mod_lt num hden
  have hn : n = num / den ∨ n = num / den + 1 := by
    by_contra hfar
    rcases (show n + 1 ≤ num / den ∨ num / den + 2 ≤ n by omega) with hle | hle
    · have hmul := Nat.mul_le_mul_right den hle
      rw [Nat.add_mul] at hmul
      omega
    · have hmul := Nat.mul_le_mul_right den hle
      rw [Nat.add_mul] at hmul
      omega
  unfold roundDiv
  dsimp only
  rcases hn with hn | hn
  · rw [hn] at hlow hhigh htie ⊢
    split
    · rfl
    · rw [if_neg (by omega)]
      omega
  · rw [hn, Nat.add_mul] at hlow hhigh htie
    rw [hn, if_neg (by omega)]
    split
    · rfl
    · omega

theorem roundDiv_mul_right {c : Nat} (hc : 0 < c) (num den : Nat) :
    roundDiv (num * c) (den * c) = roundDiv num den := by
  have hlt (a b : Nat) : a * c < b * c ↔ a < b := Nat.mul_lt_mul_right hc
  simp only [roundDiv, Nat.mul_div_mul_right _ _ hc, Nat.mul_mod_mul_right, ← Nat.mul_assoc, hlt]

/-- The ratio, counted in the places of the exponent, is below `2 ^ 53`; and unless the exponent is
the least, it is not below `2 ^ 52`. -/
structure Fits (num den e : Nat) : Prop where
  below : num * 2 ^ unitExponent < 2 ^ 53 * (den * 2 ^ e)
  above : e = 0 ∨ 2 ^ 52 * (den * 2 ^ e) ≤ num * 2 ^ unitExponent

section
variable {num den : Nat}

theorem fits_ratioExponent (hnum : 0 < num) (hden : 0 < den) :
    Fits num den (ratioExponent num den) := by
  have hdenLow : 2 ^ den.log2 ≤ den := Nat.log2_self_le (Nat.ne_of_gt hden)
  have hdenHigh : den < 2 ^ (den.log2 + 1) := Nat.lt_log2_self
  have hnumLow : 2 ^ num.log2 ≤ num := Nat.log2_self_le (Nat.ne_of_gt hnum)
  have hnumHigh : num < 2 ^ (num.log2 + 1) := Nat.lt_log2_self
  unfold ratioExponent
  simp only [Nat.pow_eq]
  generalize hguess : num.log2 + unitExponent - den.log2 - 53 = e
  -- The guess from the lengths is right or one too small.
  have hbelow : num * 2 ^ unitExponent < 2 ^ 54 * (den * 2 ^ e) :=
    calc num * 2 ^ unitExponent < 2 ^ (num.log2 + 1) * 2 ^ unitExponent :=
          Nat.mul_lt_mul_of_pos_right hnumHigh (Nat.two_pow_pos _)
      _ = 2 ^ (num.log2 + 1 + unitExponent) := (Nat.pow_add ..).symm
      _ ≤ 2 ^ (54 + (den.log2 + e)) := Nat.pow_le_pow_right (by decide) (by omega)
      _ = 2 ^ 54 * (2 ^ den.log2 * 2 ^ e) := by rw [Nat.pow_add, Nat.pow_add]
      _ ≤ 2 ^ 54 * (den * 2 ^ e) :=
          Nat.mul_le_mul_left _ (Nat.mul_le_mul_right _ hdenLow)
  have habove : e = 0 ∨ 2 ^ 52 * (den * 2 ^ e) ≤ num * 2 ^ unitExponent := by
    refine (Nat.eq_zero_or_pos e).imp_right fun he => ?_
    calc 2 ^ 52 * (den * 2 ^ e)
        ≤ 2 ^ 52 * (2 ^ (den.log2 + 1) * 2 ^ e) :=
          Nat.mul_le_mul_left _ (Nat.mul_le_mul_right _ hdenHigh.le)
      _ = 2 ^ (52 + (den.log2 + 1 + e)) := by rw [← Nat.pow_add, ← Nat.pow_add]
      _ ≤ 2 ^ (num.log2 + unitExponent) := Nat.pow_le_pow_right (by decide) (by omega)
      _ = 2 ^ num.log2 * 2 ^ unitExponent := Nat.pow_add ..
      _ ≤ num * 2 ^ unitExponent := Nat.mul_le_mul_right _ hnumLow
  have hguessed : 2 * fractionSize * 2 ^ e * den = 2 ^ 53 * (den * 2 ^ e) := by
    rw [fractionSize_eq]
    ring
  split
  · rename_i hsmall
    have hnext : den * 2 ^ (e + 1) = 2 * (den * 2 ^ e) := by ring
    rw [hguessed] at hsmall
    exact ⟨by rw [hnext]; omega, .inr (by rw [hnext]; omega)⟩
  · rename_i hlarge
    rw [hguessed] at hlarge
    exact ⟨Nat.lt_of_not_le hlarge, habove⟩

theorem Fits.le {e e' : Nat} (h : Fits num den e) (h' : Fits num den e') : e ≤ e' := by
  refine Nat.le_of_not_lt fun hlt => ?_
  have hpow : 2 * (den * 2 ^ e') ≤ den * 2 ^ e := by
    calc 2 * (den * 2 ^ e') = den * 2 ^ (e' + 1) := by ring
      _ ≤ den * 2 ^ e := Nat.mul_le_mul_left _ (Nat.pow_le_pow_right (by decide) hlt)
  have hbelow := h'.below
  rcases h.above with hzero | habove
  · omega
  · omega

theorem Fits.ratioExponent_eq {e : Nat} (hnum : 0 < num) (hden : 0 < den) (h : Fits num den e) :
    ratioExponent num den = e :=
  Nat.le_antisymm ((fits_ratioExponent hnum hden).le h) (h.le (fits_ratioExponent hnum hden))

theorem Fits.mul_right {e c : Nat} (hc : 0 < c) (h : Fits num den e) :
    Fits (num * c) (den * c) e := by
  have hnum : num * c * 2 ^ unitExponent = num * 2 ^ unitExponent * c := Nat.mul_right_comm ..
  have hden (b : Nat) : 2 ^ b * (den * c * 2 ^ e) = 2 ^ b * (den * 2 ^ e) * c := by ring
  refine ⟨?_, h.above.imp_right fun habove => ?_⟩
  · rw [hnum, hden]
    exact Nat.mul_lt_mul_of_pos_right h.below hc
  · rw [hnum, hden]
    exact Nat.mul_le_mul_right c habove

/-- The nearest double is that of the ratio, however the ratio is written. -/
theorem nearestCode_mul_right (num : Nat) {c : Nat} (hc : 0 < c) (hden : 0 < den) :
    nearestCode (num * c) (den * c) = nearestCode num den := by
  rcases Nat.eq_zero_or_pos num with rfl | hnum
  · rw [Nat.zero_mul, nearestCode, nearestCode, if_pos rfl, if_pos rfl]
  · have hnumc : 0 < num * c := Nat.mul_pos hnum hc
    have hexponent : ratioExponent (num * c) (den * c) = ratioExponent num den :=
      ((fits_ratioExponent hnum hden).mul_right hc).ratioExponent_eq hnumc (Nat.mul_pos hden hc)
    have hround (m n : Nat) : roundDiv (num * c * m) (den * c * n) = roundDiv (num * m) (den * n) := by
      rw [Nat.mul_right_comm num, Nat.mul_right_comm den, roundDiv_mul_right hc]
    rw [nearestCode, nearestCode, if_neg (Nat.ne_of_gt hnum), if_neg (Nat.ne_of_gt hnumc),
      hexponent]
    simp only [hround]

theorem Fits.nearestCode_eq {e : Nat} (hnum : 0 < num) (hden : 0 < den) (h : Fits num den e) :
    nearestCode num den =
      min (e * fractionSize + roundDiv (num * 2 ^ unitExponent) (den * 2 ^ e)) infinityCode := by
  rw [nearestCode, if_neg (Nat.ne_of_gt hnum), h.ratioExponent_eq hnum hden]
  rfl

/-- Of a ratio that fits the exponent, a significand within half a place is the nearest. -/
theorem nearestCode_of_fits {m e : Nat} (hnum : 0 < num) (hden : 0 < den) (h : Fits num den e)
    (hlow : 2 * (m * (den * 2 ^ e)) ≤ 2 * (num * 2 ^ unitExponent) + den * 2 ^ e)
    (hhigh : 2 * (num * 2 ^ unitExponent) ≤ 2 * (m * (den * 2 ^ e)) + den * 2 ^ e)
    (htie : m % 2 = 0 ∨ 2 * (m * (den * 2 ^ e)) < 2 * (num * 2 ^ unitExponent) + den * 2 ^ e ∧
      2 * (num * 2 ^ unitExponent) < 2 * (m * (den * 2 ^ e)) + den * 2 ^ e) :
    nearestCode num den = min (e * fractionSize + m) infinityCode := by
  have hround : roundDiv (num * 2 ^ unitExponent) (den * 2 ^ e) = m :=
    roundDiv_eq (Nat.mul_pos hden (Nat.two_pow_pos e)) hlow hhigh htie
  rw [h.nearestCode_eq hnum hden, hround]

end

theorem code_parts (code : Nat) :
    codeExponent code * fractionSize + codeSignificand code = code ∧
      codeSignificand code < 2 ^ 53 ∧
      (codeExponent code = 0 ∨ 2 ^ 52 ≤ codeSignificand code) := by
  simp only [codeSignificand, codeExponent, fractionSize_eq]
  omega

theorem contains_mul (s : Spread) {scale point c : Nat} (hc : 0 < c) :
    s.contains (c * scale) (c * point) = s.contains scale point := by
  have hle (a b : Nat) : c * a ≤ c * b ↔ a ≤ b := Nat.mul_le_mul_left_iff hc
  have hlt (a b : Nat) : c * a < c * b ↔ a < b := Nat.mul_lt_mul_left hc
  simp only [Spread.contains, Nat.mul_left_comm _ c, hle, hlt]

theorem contains_eq_true (s : Spread) {scale point : Nat} :
    s.contains scale point = true ↔
      s.low * scale ≤ point ∧ point ≤ s.high * scale ∧
        (s.closed = true ∨ s.low * scale < point ∧ point < s.high * scale) := by
  unfold Spread.contains
  cases s.closed
  · simp only [Bool.false_eq_true, if_false, Bool.and_eq_true, decide_eq_true_eq, false_or]
    omega
  · simp

/-- The spread in places of the code: half of one on either side, and a quarter of one below a power
of two. -/
theorem spread_bounds {code place value : Nat} (hcode : 0 < code)
    (h : (spread code).contains place (4 * value) = true) :
    4 * (codeSignificand code * place) ≤ 4 * value + 2 * place ∧
      2 * value ≤ 2 * (codeSignificand code * place) + place ∧
      (codeSignificand code = fractionSize → codeExponent code ≠ 0 →
        4 * (codeSignificand code * place) ≤ 4 * value + place) ∧
      (codeSignificand code % 2 = 0 ∨
        2 * (codeSignificand code * place) < 2 * value + place ∧
          2 * value < 2 * (codeSignificand code * place) + place) := by
  obtain ⟨hlow, hhigh, htie⟩ := (contains_eq_true _).mp h
  have hpos : 0 < codeSignificand code := by
    have := code_parts code
    simp only [fractionSize_eq] at this
    omega
  have hplace : place ≤ codeSignificand code * place := Nat.le_mul_of_pos_left _ hpos
  simp only [spread, beq_iff_eq, Nat.add_mul, Nat.mul_assoc] at hhigh htie
  simp only [spread] at hlow
  split at hlow
  · rename_i hedge
    rw [if_pos hedge] at htie
    rw [Nat.sub_mul, Nat.mul_assoc] at hlow htie
    omega
  · rename_i hedge
    rw [if_neg hedge] at htie
    rw [Nat.sub_mul, Nat.mul_assoc] at hlow htie
    exact ⟨by omega, by omega, fun hm he => absurd ⟨hm, he⟩ hedge, by omega⟩

theorem nearestCode_eq {num den code : Nat} (hden : 0 < den) (hcode : 0 < code)
    (hfinite : code < infinityCode)
    (h : (spread code).contains (den * 2 ^ codeExponent code)
      (4 * (num * 2 ^ unitExponent)) = true) :
    nearestCode num den = code := by
  obtain ⟨hparts, hbits, hnormal⟩ := code_parts code
  obtain ⟨hlow, hhigh, hedge, htie⟩ := spread_bounds hcode h
  have hmax : codeSignificand code * (den * 2 ^ codeExponent code) ≤
      (2 ^ 53 - 1) * (den * 2 ^ codeExponent code) := Nat.mul_le_mul_right _ (by omega)
  have hplace : 0 < den * 2 ^ codeExponent code := Nat.mul_pos hden (Nat.two_pow_pos _)
  have hmpos : 0 < codeSignificand code := by
    simp only [fractionSize_eq] at hparts
    omega
  have hnum : 0 < num := by
    refine Nat.pos_of_ne_zero fun hzero => ?_
    have := Nat.le_mul_of_pos_left (den * 2 ^ codeExponent code) hmpos
    rw [hzero, Nat.zero_mul] at hlow
    omega
  by_cases hfits : codeExponent code = 0 ∨
      2 ^ 52 * (den * 2 ^ codeExponent code) ≤ num * 2 ^ unitExponent
  · rw [nearestCode_of_fits hnum hden ⟨by omega, hfits⟩ (by omega) hhigh htie, hparts,
      Nat.min_eq_left hfinite.le]
  · -- Just below a power of two the significand is `2 ^ 53` at the exponent before.
    have hm : codeSignificand code = 2 ^ 52 := by
      refine Nat.le_antisymm (Nat.le_of_not_lt fun hlt => ?_) (by omega)
      have hmore := Nat.mul_le_mul_right (den * 2 ^ codeExponent code) (Nat.succ_le_of_lt hlt)
      rw [Nat.succ_mul] at hmore
      omega
    obtain ⟨e, he⟩ : ∃ e, codeExponent code = e + 1 := Nat.exists_eq_succ_of_ne_zero (by omega)
    have hdouble : den * 2 ^ codeExponent code = 2 * (den * 2 ^ e) := by
      rw [he]
      ring
    have hedge := hedge hm (by omega)
    rw [hm, hdouble] at hedge hhigh
    rw [hdouble] at hfits
    rw [nearestCode_of_fits (m := 2 ^ 53) (e := e) hnum hden ⟨by omega, by omega⟩ (by omega) (by omega)
      (.inl rfl), Nat.min_eq_left]
    · rw [← hparts, hm, he, fractionSize_eq]
      omega
    · rw [← hparts, hm, he, fractionSize_eq] at hfinite
      rw [fractionSize_eq]
      omega

theorem Decimal.code_eq (d : Decimal) :
    d.code =
      if d.digits = 0 ∨ d.exponent + (decimalText d.digits).length < -exponentReach then 0
      else if exponentReach < d.exponent + (decimalText d.digits).length then infinityCode
      else nearestCode (d.digits * 10 ^ d.exponent.toNat) (10 ^ (-d.exponent).toNat) := rfl

/-- A zero at the end that is taken off by the exponent does not matter. -/
theorem code_mul_ten (negative : Bool) (d : Nat) {k : Int} (hk : 0 ≤ k) :
    Decimal.code ⟨negative, d * 10 ^ k.toNat * 10, -1⟩ = Decimal.code ⟨negative, d, k⟩ := by
  rcases Nat.eq_zero_or_pos d with rfl | hd
  · simp [Decimal.code_eq]
  have hpos : 0 < d * 10 ^ k.toNat * 10 :=
    Nat.mul_pos (Nat.mul_pos hd (Nat.pow_pos (by decide))) (by decide)
  have hlength : -1 + ((decimalText (d * 10 ^ k.toNat * 10)).length : Int) =
      k + (decimalText d).length := by
    rw [Nat.mul_assoc, ← Nat.pow_succ, length_decimalText_mul_pow hd]
    omega
  have hzero : (-k).toNat = 0 := by omega
  have hnearest := nearestCode_mul_right (d * 10 ^ k.toNat) (c := 10) (by decide) Nat.one_pos
  rw [Nat.one_mul] at hnearest
  simp only [Decimal.code_eq, hlength, Nat.ne_of_gt hpos, Nat.ne_of_gt hd, hzero, false_or]
  simp [hnearest]

end SweepReport.Numeral
