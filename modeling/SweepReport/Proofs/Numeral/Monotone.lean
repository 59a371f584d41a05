import SweepReport.Proofs.Numeral.Nearest

/-! Rounding keeps the order: the greater of two numbers is nearest to no lesser code. Within one exponent
the significands are rounded quotients, and the codes of an exponent come before those of the next. -/
namespace SweepReport.Numeral

theorem roundDiv_bounds (num den : Nat) :
    num / den ≤ roundDiv num den ∧ roundDiv num den ≤ num / den + 1 := by
  unfold roundDiv
  dsimp only
  split
  · omega
  · split <;> omega

theorem roundDiv_one (num : Nat) : roundDiv num 1 = num := by
  simp [roundDiv, Nat.mod_one]

theorem roundDiv_mono {m n : Nat} (h : m ≤ n) (den : Nat) : roundDiv m den ≤ roundDiv n den := by
  have hle : m / den ≤ n / den := Nat.div_le_div_right h
  have hm : m / den * den + m % den = m := Nat.div_add_mod' m den
  have hn : n / den * den + n % den = n := Nat.div_add_mod' n den
  rcases Nat.eq_or_lt_of_le hle with heq | hlt
  · -- Of the same quotient, the greater has the greater remainder.
    rw [heq] at hm
    unfold roundDiv
    dsimp only
    rw [heq]
    split_ifs <;> omega
  · exact (roundDiv_bounds m den).2.trans ((Nat.succ_le_of_lt hlt).trans (roundDiv_bounds n den).1)

section
variable {num den e : Nat}

/-- The significand at a fitting exponent; it reaches `2 ^ 53` where the next exponent begins. -/
theorem Fits.roundDiv_bounds (hden : 0 < den) (h : Fits num den e) :
    roundDiv (num * 2 ^ unitExponent) (den * 2 ^ e) ≤ 2 ^ 53 ∧
      (e = 0 ∨ 2 ^ 52 ≤ roundDiv (num * 2 ^ unitExponent) (den * 2 ^ e)) := by
  have hpos : 0 < den * 2 ^ e := Nat.mul_pos hden (Nat.two_pow_pos e)
  obtain ⟨hlow, hhigh⟩ := Numeral.roundDiv_bounds (num * 2 ^ unitExponent) (den * 2 ^ e)
  have hquotient := (Nat.div_lt_iff_lt_mul hpos).mpr h.below
  exact ⟨by omega, h.above.imp_right fun habove =>
    ((Nat.le_div_iff_mul_le hpos).mpr habove).trans hlow⟩

theorem Fits.mono {n f : Nat} (h : Fits num den e) (hnum : num ≤ n) (h' : Fits n den f) : e ≤ f := by
  refine Nat.le_of_not_lt fun hlt => ?_
  have hpow : 2 * (den * 2 ^ f) ≤ den * 2 ^ e :=
    calc 2 * (den * 2 ^ f) = den * 2 ^ (f + 1) := by ring
      _ ≤ den * 2 ^ e := Nat.mul_le_mul_left _ (Nat.pow_le_pow_right (by decide) hlt)
  have hbelow := h'.below
  have hscaled := Nat.mul_le_mul_right (2 ^ unitExponent) hnum
  rcases h.above with hzero | habove
  · omega
  · omega

end

theorem nearestCode_mono_left {m n den : Nat} (hden : 0 < den) (h : m ≤ n) :
    nearestCode m den ≤ nearestCode n den := by
  rcases Nat.eq_zero_or_pos m with rfl | hm
  · exact Nat.zero_le _
  have hn : 0 < n := Nat.lt_of_lt_of_le hm h
  have hfits := fits_ratioExponent hm hden
  have hfits' := fits_ratioExponent hn hden
  have hexponent := hfits.mono h hfits'
  rw [hfits.nearestCode_eq hm hden, hfits'.nearestCode_eq hn hden, fractionSize_eq]
  generalize ratioExponent m den = e at *
  generalize ratioExponent n den = f at *
  obtain ⟨hhigh, -⟩ := hfits.roundDiv_bounds hden
  obtain ⟨-, hlow⟩ := hfits'.roundDiv_bounds hden
  rcases Nat.eq_or_lt_of_le hexponent with rfl | hlt
  · have hround := roundDiv_mono (Nat.mul_le_mul_right (2 ^ unitExponent) h) (den * 2 ^ e)
    omega
  · omega

theorem nearestCode_congr {m n den den' : Nat} (hden : 0 < den) (hden' : 0 < den')
    (h : m * den' = n * den) : nearestCode m den = nearestCode n den' := by
  rw [← nearestCode_mul_right m hden' hden, h, Nat.mul_comm den, nearestCode_mul_right n hden hden']

end SweepReport.Numeral
