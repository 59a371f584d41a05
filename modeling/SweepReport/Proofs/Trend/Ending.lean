import SweepReport.Proofs.Double.Operations
import SweepReport.Proofs.Trend.Walk

/-! Where walks end, in doubles. The abscissas of a walk do not descend, so it is the last index that
decides: where that is still below the end, so are all before it, and the walk has no end among the
indices there are. A step that is too small for its range leads to such walks. -/
namespace SweepReport
open Double Numeral

/-- The code of an abscissa, by those of the start and the step. -/
def abscissaCode (a s i : Nat) : Nat :=
  nearestCode (units a + units
    (nearestCode (units (nearestCode i 1) * units s) (2 ^ (unitExponent + unitExponent))))
    (2 ^ unitExponent)

section
variable {a s : Nat}

theorem index_finite {n : Nat} (h : n ≤ UInt64.size) : nearestCode n 1 < infinityCode :=
  Nat.lt_of_le_of_lt (nearestCode_mono_left Nat.one_pos h) (by decide +kernel)

theorem abscissaCode_le (a s i : Nat) : abscissaCode a s i ≤ infinityCode := nearestCode_le ..

theorem abscissaCode_mono {i j : Nat} (h : i ≤ j) : abscissaCode a s i ≤ abscissaCode a s j := by
  have hpos := Nat.two_pow_pos unitExponent
  have hindex := units_mono (nearestCode_mono_left Nat.one_pos h)
  have hproduct := units_mono (nearestCode_mono_left (Nat.two_pow_pos (unitExponent + unitExponent))
    (Nat.mul_le_mul_right (units s) hindex))
  exact nearestCode_mono_left hpos (Nat.add_le_add_left hproduct _)

theorem abscissa_ofCode (ha : a ≤ infinityCode) (hs : s < infinityCode) {i : Nat}
    (hi : i ≤ UInt64.size) : abscissa (ofCode a) (ofCode s) i = ofCode (abscissaCode a s i) := by
  change ofCode a + Float.ofNat i * ofCode s = _
  rw [ofNat_eq, ofCode_mul (index_finite hi) hs, ofCode_add ha (nearestCode_le ..)]
  rfl

end

/-- A positive step, the infinite one included, by its code. -/
theorem code_of_isStep {step : Float} (h : isStep step = true) :
    ∃ s, 0 < s ∧ s ≤ infinityCode ∧ step = ofCode s := by
  have hlt : Float.ofNat 0 < step := of_decide_eq_true h
  have hzero : rank (Float.ofNat 0) = 0 := rfl
  obtain ⟨-, -, hrank⟩ := lt_iff.mp hlt
  exact exists_ofCode (hzero ▸ hrank)

theorem size_mul_infinity :
    Float.ofNat UInt64.size * ofCode infinityCode = ofCode infinityCode := by
  decide +kernel

/-- The first place of a walk by the infinite step is no number. -/
theorem infinite_step_arrives (a b : Nat) :
    Scalar.lt (abscissa (ofCode a) (ofCode infinityCode) 0) (ofCode b) = false := by
  have hproduct : (Float.ofNat 0 * ofCode infinityCode).isNaN := by decide +kernel
  have hsum : (abscissa (ofCode a) (ofCode infinityCode) 0).isNaN := isNaN_add (.inr hproduct)
  refine decide_eq_false fun hlt => ?_
  rw [(lt_iff.mp hlt).1] at hsum
  contradiction

/-- The last index is too large to be a double, and counts as one more. -/
theorem last_word_rounds_up : nearestCode (UInt64.size - 1) 1 = nearestCode UInt64.size 1 := by
  decide +kernel

section
variable {a b : Nat} (ha : a ≤ infinityCode) (hb : b ≤ infinityCode) {step : Float}
  (hstep : isStep step = true)
include ha hb hstep

/-- A walk by a positive step ends among the indices there are just where one index more would not be
below the end. -/
theorem walk_ends_iff :
    (∃ i < UInt64.size, Scalar.lt (abscissa (ofCode a) step i) (ofCode b) = false) ↔
      ¬ abscissa (ofCode a) step UInt64.size < ofCode b := by
  obtain ⟨s, -, hs, rfl⟩ := code_of_isStep hstep
  rcases Nat.eq_or_lt_of_le hs with rfl | hfinite
  · refine iff_of_true ⟨0, by decide, infinite_step_arrives a b⟩ ?_
    change ¬ ofCode a + Float.ofNat UInt64.size * ofCode infinityCode < ofCode b
    rw [size_mul_infinity, Double.add_comm, infinity_add_ofCode ha, ofCode_lt_iff hs hb]
    omega
  · have harrived {i : Nat} (hi : i ≤ UInt64.size) :
        ¬ abscissa (ofCode a) (ofCode s) i < ofCode b ↔ b ≤ abscissaCode a s i := by
      rw [abscissa_ofCode ha hfinite hi, ofCode_lt_iff (abscissaCode_le ..) hb, Nat.not_lt]
    rw [harrived (Nat.le_refl _)]
    constructor
    · rintro ⟨i, hi, hend⟩
      have hle := (harrived hi.le).mp (of_decide_eq_false hend)
      exact hle.trans (abscissaCode_mono hi.le)
    · intro hle
      have hlast : abscissaCode a s (UInt64.size - 1) = abscissaCode a s UInt64.size := by
        rw [abscissaCode, abscissaCode, last_word_rounds_up]
      refine ⟨UInt64.size - 1, by decide, decide_eq_false ((harrived (Nat.sub_le ..)).mpr ?_)⟩
      rwa [hlast]

/-- So it ends where that many steps are as long as from zero to the end. -/
theorem walk_ends_of_le (h : ofCode b ≤ Float.ofNat UInt64.size * step) :
    ¬ abscissa (ofCode a) step UInt64.size < ofCode b := by
  obtain ⟨s, -, hs, rfl⟩ := code_of_isStep hstep
  obtain ⟨p, hp, hproduct⟩ : ∃ p ≤ infinityCode,
      Float.ofNat UInt64.size * ofCode s = ofCode p := by
    rcases Nat.eq_or_lt_of_le hs with rfl | hfinite
    · exact ⟨infinityCode, Nat.le_refl _, size_mul_infinity⟩
    · rw [ofNat_eq, ofCode_mul (index_finite (Nat.le_refl _)) hfinite]
      exact ⟨_, nearestCode_le (units (nearestCode UInt64.size 1) * units s)
        (2 ^ (unitExponent + unitExponent)), rfl⟩
  have hle : b ≤ p := by
    rwa [hproduct, ofCode_le_iff hb hp] at h
  have hsum : p ≤ nearestCode (units a + units p) (2 ^ unitExponent) := by
    have hmono := nearestCode_mono_left (Nat.two_pow_pos unitExponent)
      (Nat.le_add_left (units p) (units a))
    rwa [nearestCode_units, Nat.min_eq_left hp] at hmono
  change ¬ ofCode a + Float.ofNat UInt64.size * ofCode s < ofCode b
  rw [hproduct, ofCode_add ha hp, ofCode_lt_iff (nearestCode_le ..) hb]
  omega

end

theorem ofWord_eq (n : UInt64) : (Scalar.ofWord n : Float) = ofCode (nearestCode n.toNat 1) :=
  ofNat_eq n.toNat

/-- `2 ^ 64` steps, one more than the last index, lead from one batch size to the other, as doubles are
added. -/
def StepReaches (a b : UInt64) (step : Float) : Prop :=
  ¬ abscissa (Scalar.ofWord a) step UInt64.size < (Scalar.ofWord b : Float)

instance (a b : UInt64) (step : Float) : Decidable (StepReaches a b step) :=
  inferInstanceAs (Decidable (¬ _))

section
variable {a b : UInt64} {step : Float} (hstep : isStep step = true)
include hstep

theorem stepReaches_iff : StepReaches a b step ↔ ∃ i < UInt64.size,
    Scalar.lt (abscissa (Scalar.ofWord a) step i) (Scalar.ofWord b) = false := by
  have hend := walk_ends_iff (nearestCode_le a.toNat 1) (nearestCode_le b.toNat 1) hstep
  rw [← ofWord_eq, ← ofWord_eq] at hend
  exact hend.symm

theorem stepReaches_of_le (h : (Scalar.ofWord b : Float) ≤ Scalar.ofNat UInt64.size * step) :
    StepReaches a b step := by
  have hend := walk_ends_of_le (nearestCode_le a.toNat 1) (nearestCode_le b.toNat 1) hstep
  rw [← ofWord_eq, ← ofWord_eq] at hend
  exact hend h

/-- By a step that does not reach the end, every index stays below it. -/
theorem below_of_not_stepReaches (h : ¬ StepReaches a b step) : ∀ i < UInt64.size,
    Scalar.lt (abscissa (Scalar.ofWord a) step i) (Scalar.ofWord b) = true := by
  simp only [stepReaches_iff hstep, not_exists, not_and, Bool.not_eq_false] at h
  exact h

/-- Sampling a trend ends by such steps alone, and has fewer samples than there are indices. -/
theorem exists_sample?_iff (p : Trend Float) : StepReaches a b step ↔
    ∃ curve, p.sample? (Scalar.ofWord a) (Scalar.ofWord b) step = some curve ∧
      curve.length < UInt64.size := by
  have hreach : Scalar.reach (Scalar.ofWord a) (Scalar.ofWord b) step = UInt64.size := rfl
  simp only [stepReaches_iff hstep, ← exists_arrives_iff, sample?_eq_some_iff hstep, hreach]
  constructor
  · rintro ⟨n, hn, harrives⟩
    exact ⟨_, ⟨n, hn, harrives, rfl⟩, by rwa [Trend.samples, List.length_map, List.length_range]⟩
  · rintro ⟨-, ⟨n, hn, harrives, -⟩, -⟩
    exact ⟨n, hn, harrives⟩

end

end SweepReport
