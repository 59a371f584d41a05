import SweepReport.Proofs.Double.Parts

/-! Rounding to doubles. The bits beyond the 53rd are shifted out, and what was lost may add one to
the mantissa, which then has one bit too many at most. -/
namespace SweepReport.Double
open Float.Model (UnpackedFloat totalExponent)
open Float.Model.UnpackedFloat

def magnitude (m : Nat) (e : Int) : Int := m.log2 + 1 + e

def fitted (m : Nat) (e : Int) : Int := max e (max (magnitude m e - 53) (-1074))

def nearest (m : Nat) (e : Int) (accuracy : Accuracy) : Nat :=
  (ExtendedMantissa.ofMantissaAndAccuracy m accuracy >>> (fitted m e - e).toNat).roundedMantissa

def ofMantissa (s : Sign) (m : Nat) (e : Int) : UnpackedFloat :=
  if h : m = 0 then .zero s else .finite s m e (Nat.pos_of_ne_zero h)

theorem shiftRight_succ (em : ExtendedMantissa) (k : Nat) :
    em >>> (k + 1) = (em >>> k).shiftRightOne := rfl

@[simp] theorem mantissa_shiftRight (em : ExtendedMantissa) (k : Nat) :
    (em >>> k).mantissa = em.mantissa / 2 ^ k := by
  induction k with
  | zero => exact (Nat.div_one _).symm
  | succ k ih =>
    rw [shiftRight_succ, Nat.pow_succ, ← Nat.div_div_eq_div_mul, ← ih]
    rfl

/-- Zeros that are shifted out leave no trace. -/
theorem shiftRight_exact (m k : Nat) :
    (⟨m * 2 ^ k, false, false⟩ : ExtendedMantissa) >>> k = ⟨m, false, false⟩ := by
  induction k generalizing m with
  | zero => exact congrArg (ExtendedMantissa.mk · false false) (Nat.mul_one m)
  | succ k ih =>
    rw [shiftRight_succ, Nat.pow_succ', ← Nat.mul_assoc, ih]
    simp [ExtendedMantissa.shiftRightOne]

theorem roundedMantissa_bounds (em : ExtendedMantissa) :
    em.mantissa ≤ em.roundedMantissa ∧ em.roundedMantissa ≤ em.mantissa + 1 := by
  obtain ⟨m, round, sticky⟩ := em
  cases round <;> cases sticky <;>
    simp only [ExtendedMantissa.roundedMantissa, ExtendedMantissa.accuracy,
      Accuracy.roundToNearestEven] <;> omega

@[simp] theorem mantissa_ofMantissaAndAccuracy (m : Nat) (accuracy : Accuracy) :
    (ExtendedMantissa.ofMantissaAndAccuracy m accuracy).mantissa = m := by
  rcases accuracy with _ | _ | _ | _ <;> rfl

theorem targetExponent_eq (m : Nat) (e : Int) :
    Float.Model.Format.binary64.targetExponent (totalExponent m e) =
      max (magnitude m e - 53) (-1074) := rfl

theorem shiftToTargetExponent_eq (m : Nat) (e : Int) (accuracy : Accuracy) :
    shiftToTargetExponent .binary64 m e accuracy =
      (ExtendedMantissa.ofMantissaAndAccuracy m accuracy >>> (fitted m e - e).toNat,
        fitted m e) := by
  have hshift : (max (magnitude m e - 53) (-1074) - e).toNat = (fitted m e - e).toNat := by
    unfold fitted
    omega
  have hexponent : e + ((fitted m e - e).toNat : Int) = fitted m e := by
    unfold fitted
    omega
  unfold shiftToTargetExponent shiftToExponent
  dsimp only
  rw [targetExponent_eq, hshift, hexponent]

section
variable {m : Nat} {e : Int}

theorem quotient_lt : m / 2 ^ (fitted m e - e).toNat < 2 ^ 53 := by
  rw [Nat.div_lt_iff_lt_mul (Nat.two_pow_pos _), ← Nat.pow_add]
  refine Nat.lt_of_lt_of_le Nat.lt_log2_self (Nat.pow_le_pow_right (by omega) ?_)
  unfold fitted magnitude
  omega

theorem nearest_bounds (accuracy : Accuracy) :
    m / 2 ^ (fitted m e - e).toNat ≤ nearest m e accuracy ∧
      nearest m e accuracy ≤ m / 2 ^ (fitted m e - e).toNat + 1 := by
  have h := roundedMantissa_bounds
    (ExtendedMantissa.ofMantissaAndAccuracy m accuracy >>> (fitted m e - e).toNat)
  rwa [mantissa_shiftRight, mantissa_ofMantissaAndAccuracy] at h

theorem nearest_le (accuracy : Accuracy) : nearest m e accuracy ≤ 2 ^ 53 := by
  have := (nearest_bounds (m := m) (e := e) accuracy).2
  have := quotient_lt (m := m) (e := e)
  omega

theorem log2_le_of_lt {b : Nat} (h : m < 2 ^ (b + 1)) : m.log2 ≤ b := by
  by_cases hm : m = 0
  · simp [hm]
  · have := (Nat.log2_lt hm).mpr h
    omega

theorem fitted_of_lt (hm : m < 2 ^ 53) (he : -1074 ≤ e) : fitted m e = e := by
  have := log2_le_of_lt hm
  unfold fitted magnitude
  omega

theorem fitted_ge (m : Nat) (e : Int) : -1074 ≤ fitted m e := by
  unfold fitted
  omega

end

/-- Rounding shifts and rounds once, and once more where the mantissa became too long. -/
theorem roundWithAccuracy_eq (s : Sign) (m : Nat) (e : Int) (accuracy : Accuracy) :
    roundWithAccuracy .binary64 s m e accuracy =
      if nearest m e accuracy < 2 ^ 53 then ofMantissa s (nearest m e accuracy) (fitted m e)
      else .finite s (2 ^ 52) (fitted m e + 1) (by decide) := by
  have hge := fitted_ge m e
  have hle := nearest_le (m := m) (e := e) accuracy
  have hround : roundWithAccuracy .binary64 s m e accuracy =
      ofMantissa s
        (shiftToTargetExponent .binary64 (nearest m e accuracy) (fitted m e) .exact).1.mantissa
        (shiftToTargetExponent .binary64 (nearest m e accuracy) (fitted m e) .exact).2 := by
    unfold roundWithAccuracy
    rw [shiftToTargetExponent_eq]
    rfl
  rw [hround, shiftToTargetExponent_eq]
  simp only [mantissa_shiftRight, mantissa_ofMantissaAndAccuracy]
  by_cases h : nearest m e accuracy < 2 ^ 53
  · rw [if_pos h, fitted_of_lt h hge]
    simp
  · have hmax : nearest m e accuracy = 2 ^ 53 := by omega
    have hfit : fitted (2 ^ 53) (fitted m e) = fitted m e + 1 := by
      unfold fitted magnitude at hge ⊢
      rw [Nat.log2_two_pow]
      omega
    have hone : (fitted m e + 1 - fitted m e).toNat = 1 := by omega
    rw [if_neg h, hmax, hfit, hone]
    rfl

theorem log2_mul_two_pow {m : Nat} (hm : 0 < m) (k : Nat) : (m * 2 ^ k).log2 = m.log2 + k := by
  have hne : m * 2 ^ k ≠ 0 := Nat.ne_of_gt (Nat.mul_pos hm (Nat.two_pow_pos k))
  rw [Nat.log2_eq_iff hne]
  constructor
  · rw [Nat.pow_add]
    exact Nat.mul_le_mul_right _ (Nat.log2_self_le (Nat.ne_of_gt hm))
  · rw [Nat.add_right_comm, Nat.pow_add]
    exact Nat.mul_lt_mul_of_pos_right Nat.lt_log2_self (Nat.two_pow_pos k)

@[simp] theorem magnitude_mul_two_pow {m : Nat} (hm : 0 < m) (k : Nat) (e : Int) :
    magnitude (m * 2 ^ k) (e - k) = magnitude m e := by
  unfold magnitude
  rw [log2_mul_two_pow hm]
  omega

/-- The exponent in form is as small as the mantissa allows. -/
theorem Canonical.exponent_eq {m : Nat} {e : Int} (hm : 0 < m) (hc : Canonical m e) :
    max (magnitude m e - 53) (-1074) = e := by
  obtain ⟨hbits, hleast, -, hnormal⟩ := hc
  have hlog := log2_le_of_lt hbits
  have hfull : 2 ^ 52 ≤ m → 52 ≤ m.log2 := (Nat.le_log2 (Nat.ne_of_gt hm)).mpr
  unfold magnitude
  omega

theorem Canonical.fitted_eq {m : Nat} {e : Int} (hm : 0 < m) (hc : Canonical m e) (k : Nat) :
    fitted (m * 2 ^ k) (e - k) = e := by
  rw [fitted, magnitude_mul_two_pow hm, hc.exponent_eq hm]
  omega

/-- A number that a double writes exactly is rounded to itself. -/
theorem roundWithAccuracy_exact {m : Nat} {e : Int} (s : Sign) (hm : 0 < m) (hc : Canonical m e)
    (k : Nat) : roundWithAccuracy .binary64 s (m * 2 ^ k) (e - k) .exact = .finite s m e hm := by
  have hshift : (e - (e - k)).toNat = k := by omega
  have hnearest : nearest (m * 2 ^ k) (e - k) .exact = m := by
    unfold nearest
    rw [hc.fitted_eq hm, hshift, ExtendedMantissa.ofMantissaAndAccuracy, shiftRight_exact]
    rfl
  rw [roundWithAccuracy_eq, hnearest, hc.fitted_eq hm, if_pos hc.bits, ofMantissa,
    dif_neg (Nat.ne_of_gt hm)]

theorem isFinite_ofMantissa {s : Sign} {m : Nat} {e : Int} (he : e ≤ 971) :
    (ofParts (ofMantissa s m e)).isFinite := by
  unfold ofMantissa
  split
  · rw [isFinite_eq, parts_ofParts_zero]
    rfl
  · exact isFinite_ofParts_finite.mpr he

/-- Below the last power of two there is room to round up. -/
theorem isFinite_roundWithAccuracy (s : Sign) {m : Nat} {e : Int} (accuracy : Accuracy)
    (hmagnitude : magnitude m e ≤ 1023) (he : e ≤ 970) :
    (ofParts (roundWithAccuracy .binary64 s m e accuracy)).isFinite := by
  have hfitted : fitted m e ≤ 970 := by
    unfold fitted
    omega
  rw [roundWithAccuracy_eq]
  split
  · exact isFinite_ofMantissa (by omega)
  · exact isFinite_ofParts_finite.mpr (by omega)

/-- A positive number with so many digits before the point, infinity among them. -/
def AtLeast (digits : Int) (x : Float) : Prop :=
  parts x = .infinity .positive ∨
    ∃ m e hm, parts x = .finite .positive m e hm ∧ digits ≤ magnitude m e

theorem AtLeast.mono {digits fewer : Int} {x : Float} (h : AtLeast digits x)
    (hle : fewer ≤ digits) : AtLeast fewer x := by
  rcases h with h | ⟨m, e, hm, h, hdigits⟩
  · exact .inl h
  · exact .inr ⟨m, e, hm, h, Int.le_trans hle hdigits⟩

theorem atLeast_ofParts_finite {m : Nat} {e : Int} {hm : 0 < m} (hbits : m < 2 ^ 53)
    (hleast : -1074 ≤ e) (hnormal : 2 ^ 52 ≤ m ∨ e = -1074) :
    AtLeast (magnitude m e) (ofParts (.finite .positive m e hm)) := by
  by_cases he : e ≤ 971
  · exact .inr ⟨m, e, hm, parts_ofParts_finite ⟨hbits, hleast, he, hnormal⟩, Int.le_refl _⟩
  · exact .inl (parts_ofParts_overflow (by omega))

theorem atLeast_roundWithAccuracy {m : Nat} {e : Int} (accuracy : Accuracy) (hm : 0 < m)
    (hmagnitude : -1073 ≤ magnitude m e) (he : fitted m e = max (magnitude m e - 53) (-1074)) :
    AtLeast (magnitude m e) (ofParts (roundWithAccuracy .binary64 .positive m e accuracy)) := by
  have hge := fitted_ge m e
  have hle : e ≤ fitted m e := Int.le_max_left _ _
  have hshift : (fitted m e - e).toNat ≤ m.log2 := by
    unfold magnitude at *
    omega
  have hquotient : 2 ^ (m.log2 - (fitted m e - e).toNat) ≤ nearest m e accuracy := by
    refine Nat.le_trans ?_ (nearest_bounds accuracy).1
    rw [Nat.le_div_iff_mul_le (Nat.two_pow_pos _), ← Nat.pow_add, Nat.sub_add_cancel hshift]
    exact Nat.log2_self_le (Nat.ne_of_gt hm)
  have hpos : 0 < nearest m e accuracy := Nat.lt_of_lt_of_le (Nat.two_pow_pos _) hquotient
  have hlog := (Nat.le_log2 (Nat.ne_of_gt hpos)).mpr hquotient
  rw [roundWithAccuracy_eq]
  by_cases hfits : nearest m e accuracy < 2 ^ 53
  · rw [if_pos hfits, ofMantissa, dif_neg (Nat.ne_of_gt hpos)]
    refine (atLeast_ofParts_finite hfits hge ?_).mono ?_
    · have hfull := (Nat.le_log2 (k := 52) (Nat.ne_of_gt hpos)).mp
      unfold magnitude at *
      omega
    · unfold magnitude at *
      omega
  · rw [if_neg hfits]
    refine (atLeast_ofParts_finite (by decide) (by omega) (.inl (Nat.le_refl _))).mono ?_
    have hlonger : magnitude (2 ^ 52) (fitted m e + 1) = fitted m e + 54 := by
      rw [magnitude, Nat.log2_two_pow]
      omega
    omega

/-- Zeros that are appended before do not matter, as long as the mantissa is not too short. -/
theorem atLeast_padded {m k : Nat} {e : Int} (hm : 0 < m) (hmagnitude : -1073 ≤ magnitude m e)
    (hk : e - k ≤ max (magnitude m e - 53) (-1074)) :
    AtLeast (magnitude m e)
      (ofParts (roundWithAccuracy .binary64 .positive (m * 2 ^ k) (e - k) .exact)) := by
  have hpadded : magnitude (m * 2 ^ k) (e - k) = magnitude m e := magnitude_mul_two_pow hm k e
  have hfitted : fitted (m * 2 ^ k) (e - k) =
      max (magnitude (m * 2 ^ k) (e - k) - 53) (-1074) := by
    rw [fitted, hpadded]
    exact Int.max_eq_right hk
  rw [← hpadded] at hmagnitude ⊢
  exact atLeast_roundWithAccuracy .exact (Nat.mul_pos hm (Nat.two_pow_pos k)) hmagnitude hfitted

end SweepReport.Double
