import SweepReport.Proofs.Double.Arithmetic
import SweepReport.Proofs.Double.Code

/-! Rounding as the choice of the nearest double. A mantissa is shifted until it fits, bit by bit, and what
is lost decides on the last place; the outcome is the double that decimals of the same value are read
as. -/
namespace SweepReport.Double
open Numeral
open Float.Model (UnpackedFloat)
open Float.Model.UnpackedFloat

/-- The bit after the last and those behind it, when the lower bits of a number are shifted out. -/
theorem shiftRight_eq (n k : Nat) : (⟨n, false, false⟩ : ExtendedMantissa) >>> k =
    ⟨n / 2 ^ k, decide (2 ^ k ≤ 2 * (n % 2 ^ k)),
      decide (2 * (n % 2 ^ k) ≠ 0 ∧ 2 * (n % 2 ^ k) ≠ 2 ^ k)⟩ := by
  induction k with
  | zero =>
    rw [Nat.pow_zero, Nat.div_one, Nat.mod_one]
    rfl
  | succ k ih =>
    have hpos := Nat.two_pow_pos k
    have hrest : n % 2 ^ k < 2 ^ k := Nat.mod_lt n hpos
    have hmod : n % 2 ^ (k + 1) = n % 2 ^ k + 2 ^ k * (n / 2 ^ k % 2) := by
      rw [Nat.pow_succ, Nat.mod_mul]
    rw [shiftRight_succ, ih, ExtendedMantissa.shiftRightOne, hmod, Nat.pow_succ,
      ← Nat.div_div_eq_div_mul]
    rcases Nat.mod_two_eq_zero_or_one (n / 2 ^ k) with h | h
    · simp only [h, ExtendedMantissa.mk.injEq, true_and, ← Bool.decide_or]
      constructor
      · simp
        omega
      · exact decide_eq_decide.mpr (by omega)
    · simp only [h, ExtendedMantissa.mk.injEq, true_and, ← Bool.decide_or]
      constructor
      · simp
        omega
      · exact decide_eq_decide.mpr (by omega)

/-- What is shifted out is rounded to the nearest, and a half to the even. -/
theorem roundedMantissa_shiftRight (n k : Nat) :
    ((⟨n, false, false⟩ : ExtendedMantissa) >>> k).roundedMantissa = roundDiv n (2 ^ k) := by
  have hpos := Nat.two_pow_pos k
  rw [shiftRight_eq, roundDiv]
  rcases Nat.lt_trichotomy (2 * (n % 2 ^ k)) (2 ^ k) with h | h | h
  · rw [if_pos h, decide_eq_false (by omega)]
    cases hsticky : decide (2 * (n % 2 ^ k) ≠ 0 ∧ 2 * (n % 2 ^ k) ≠ 2 ^ k) <;> rfl
  · rw [if_neg (by omega), if_neg (by omega), decide_eq_true (by omega), decide_eq_false (by omega)]
    rfl
  · rw [if_neg (by omega), if_pos h, decide_eq_true (by omega), decide_eq_true (by omega)]
    rfl

def codeNear (m : Nat) (e : Int) : Nat := nearestCode (m * 2 ^ e.toNat) (2 ^ (-e).toNat)

theorem codeNear_shift (m k : Nat) (e : Int) : codeNear (m * 2 ^ k) (e - k) = codeNear m e := by
  refine nearestCode_congr (Nat.two_pow_pos _) (Nat.two_pow_pos _) ?_
  have hexponents : k + (e - k).toNat + (-e).toNat = e.toNat + (-(e - k)).toNat := by omega
  calc m * 2 ^ k * 2 ^ (e - k).toNat * 2 ^ (-e).toNat
      = m * 2 ^ (k + (e - k).toNat + (-e).toNat) := by ring
    _ = m * 2 ^ e.toNat * 2 ^ (-(e - k)).toNat := by rw [hexponents]; ring

theorem fits_magnitude {m : Nat} (hm : 0 < m) (e : Int) :
    Fits (m * 2 ^ e.toNat) (2 ^ (-e).toNat) (max (magnitude m e - 53) (-1074) + 1074).toNat := by
  unfold magnitude
  constructor
  · calc m * 2 ^ e.toNat * 2 ^ unitExponent
        < 2 ^ (m.log2 + 1) * 2 ^ e.toNat * 2 ^ unitExponent :=
          Nat.mul_lt_mul_of_pos_right
            (Nat.mul_lt_mul_of_pos_right Nat.lt_log2_self (Nat.two_pow_pos _)) (Nat.two_pow_pos _)
      _ = 2 ^ (m.log2 + 1 + e.toNat + unitExponent) := by rw [← Nat.pow_add, ← Nat.pow_add]
      _ ≤ 2 ^ (53 + ((-e).toNat + (max (m.log2 + 1 + e - 53) (-1074) + 1074).toNat)) :=
          Nat.pow_le_pow_right (by decide) (by unfold unitExponent; omega)
      _ = 2 ^ 53 * (2 ^ (-e).toNat * 2 ^ (max (m.log2 + 1 + e - 53) (-1074) + 1074).toNat) := by
          rw [Nat.pow_add, Nat.pow_add]
  · by_cases hzero : m.log2 + 1 + e - 53 ≤ -1074
    · exact .inl (by omega)
    · refine .inr ?_
      calc 2 ^ 52 * (2 ^ (-e).toNat * 2 ^ (max (m.log2 + 1 + e - 53) (-1074) + 1074).toNat)
          = 2 ^ (52 + ((-e).toNat + (max (m.log2 + 1 + e - 53) (-1074) + 1074).toNat)) := by
            rw [Nat.pow_add, Nat.pow_add]
        _ ≤ 2 ^ (m.log2 + e.toNat + unitExponent) :=
            Nat.pow_le_pow_right (by decide) (by unfold unitExponent; omega)
        _ = 2 ^ m.log2 * 2 ^ e.toNat * 2 ^ unitExponent := by rw [Nat.pow_add, Nat.pow_add]
        _ ≤ m * 2 ^ e.toNat * 2 ^ unitExponent :=
            Nat.mul_le_mul_right _ (Nat.mul_le_mul_right _ (Nat.log2_self_le (Nat.ne_of_gt hm)))

theorem ofParts_positive {m : Nat} {e : Int} {hm : 0 < m} (hbits : m < 2 ^ 53) (hleast : -1074 ≤ e)
    (hnormal : 2 ^ 52 ≤ m ∨ e = -1074) :
    ofParts (.finite .positive m e hm) = ofCode (min ((e + 1074).toNat * 2 ^ 52 + m) infinityCode) := by
  by_cases he : e ≤ 971
  · rw [ofCode_finite hm ⟨hbits, hleast, he, hnormal⟩]
    rw [infinityCode_eq]
    omega
  · have hcode : min ((e + 1074).toNat * 2 ^ 52 + m) infinityCode = infinityCode := by
      rw [infinityCode_eq]
      omega
    rw [hcode, ofCode_infinity]
    apply parts_inj
    rw [parts_ofParts_overflow (by omega), parts_ofParts_infinity]

/-- The rounded mantissa is a quotient, and a code made of it and its exponent. -/
theorem codeNear_eq {m : Nat} (hm : 0 < m) {e : Int} (he : e ≤ max (magnitude m e - 53) (-1074)) :
    codeNear m e = min ((fitted m e + 1074).toNat * 2 ^ 52 + nearest m e .exact) infinityCode ∧
      (fitted m e = -1074 ∨ 2 ^ 52 ≤ nearest m e .exact) := by
  have hfitted : fitted m e = max (magnitude m e - 53) (-1074) := Int.max_eq_right he
  have hfits := fits_magnitude hm e
  have hden : 0 < 2 ^ (-e).toNat := Nat.two_pow_pos _
  rw [← hfitted] at hfits
  have hge := fitted_ge m e
  obtain ⟨k, hk⟩ : ∃ k : Nat, fitted m e = e + k := ⟨(fitted m e - e).toNat, by omega⟩
  have hexponents : (-e).toNat + (fitted m e + 1074).toNat = k + (e.toNat + unitExponent) := by
    unfold unitExponent
    omega
  have hnearest : nearest m e .exact = roundDiv m (2 ^ k) := by
    have hshift : (fitted m e - e).toNat = k := by omega
    rw [nearest, hshift]
    exact roundedMantissa_shiftRight m k
  have hround : roundDiv (m * 2 ^ e.toNat * 2 ^ unitExponent)
      (2 ^ (-e).toNat * 2 ^ (fitted m e + 1074).toNat) = nearest m e .exact := by
    rw [hnearest, ← Nat.pow_add, hexponents, Nat.pow_add 2 k, Nat.mul_assoc, ← Nat.pow_add]
    exact roundDiv_mul_right (Nat.two_pow_pos _) m (2 ^ k)
  refine ⟨?_, ?_⟩
  · rw [codeNear, hfits.nearestCode_eq (Nat.mul_pos hm (Nat.two_pow_pos _)) hden, hround]
    rfl
  · have hnormal := (hfits.roundDiv_bounds hden).2
    rw [hround] at hnormal
    exact hnormal.imp_left fun hzero => by omega

/-- A mantissa that is long enough is rounded to the nearest double. -/
theorem ofParts_roundWithAccuracy {m : Nat} (hm : 0 < m) {e : Int}
    (he : e ≤ max (magnitude m e - 53) (-1074)) :
    ofParts (roundWithAccuracy .binary64 .positive m e .exact) = ofCode (codeNear m e) := by
  obtain ⟨hcode, hnormal⟩ := codeNear_eq hm he
  have hge := fitted_ge m e
  have hle := nearest_le (m := m) (e := e) .exact
  rw [roundWithAccuracy_eq, hcode]
  split
  · rename_i hfits
    rw [ofMantissa]
    split
    · rename_i hzero
      have hleast : (fitted m e + 1074).toNat = 0 := by omega
      rw [hzero, hleast, ← ofCode_zero]
      rfl
    · exact ofParts_positive hfits hge hnormal.symm
  · rename_i hfull
    have hfull : nearest m e .exact = 2 ^ 53 := by omega
    have hnext : (fitted m e + 1 + 1074).toNat * 2 ^ 52 + 2 ^ 52 =
        (fitted m e + 1074).toNat * 2 ^ 52 + 2 ^ 53 := by omega
    rw [ofParts_positive (by decide) (by omega) (.inl (Nat.le_refl _)), hfull, hnext]

theorem ofParts_round {m : Nat} (hm : 0 < m) (e : Int) :
    ofParts (UnpackedFloat.round .binary64 .positive m e) = ofCode (codeNear m e) := by
  rw [round_eq, ofParts_roundWithAccuracy (Nat.mul_pos hm (Nat.two_pow_pos _)), codeNear_shift]
  rw [magnitude_mul_two_pow hm]
  omega

theorem codeNear_zero (m : Nat) : codeNear m 0 = nearestCode m 1 :=
  congrArg (nearestCode · 1) (Nat.mul_one m)

theorem codeNear_neg (m k : Nat) : codeNear m (-k) = nearestCode m (2 ^ k) := by
  have hnone : (-(k : Int)).toNat = 0 := by omega
  have hden : (- -(k : Int)).toNat = k := by omega
  rw [codeNear, hnone, hden, Nat.pow_zero, Nat.mul_one]

end SweepReport.Double
