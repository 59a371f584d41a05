import SweepReport.Proofs.Double.Rounding

/-! Sums and quotients of doubles: when they are finite, and what that says of the operands. A
finite double stays finite when it is divided by a count. -/
namespace SweepReport.Double
open Float.Model (UnpackedFloat totalExponent)
open Float.Model.UnpackedFloat

theorem add_eq (a b : Float) :
    a + b = ofParts (UnpackedFloat.add .binary64 (parts a) (parts b)) := rfl

theorem mul_eq (a b : Float) :
    a * b = ofParts (UnpackedFloat.mul .binary64 (parts a) (parts b)) := rfl

theorem div_eq (a b : Float) :
    a / b = ofParts (UnpackedFloat.div .binary64 (parts a) (parts b)) := rfl

theorem beq_zero_iff {x : Float} : x == 0 ↔ ∃ s, parts x = .zero s := by
  have hzero : parts 0 = .zero .positive := rfl
  change UnpackedFloat.beq (parts x) (parts 0) ↔ _
  rw [hzero]
  cases h : parts x with
  | infinity s => cases s <;> simp [UnpackedFloat.beq, UnpackedFloat.compare]
  | notANumber => simp [UnpackedFloat.beq, UnpackedFloat.compare]
  | zero s => simp [UnpackedFloat.beq, UnpackedFloat.compare]
  | finite s m e hm => cases s <;> simp [UnpackedFloat.beq, UnpackedFloat.compare]

theorem isFinite_add_infinity (s t : Sign) :
    (ofParts (UnpackedFloat.add .binary64 (.infinity s) (.infinity t))).isFinite = false := by
  cases s <;> cases t <;> rfl

/-- Nothing that is not finite adds up to something finite. -/
theorem isFinite_of_add {a b : Float} (h : (a + b).isFinite) : a.isFinite ∧ b.isFinite := by
  rw [add_eq] at h
  rw [isFinite_eq a, isFinite_eq b]
  cases ha : parts a with
  | notANumber => simp [ha, UnpackedFloat.add, isFinite_eq, UnpackedFloat.isFinite] at h
  | infinity s =>
    cases hb : parts b with
    | infinity t => simp [ha, hb, isFinite_add_infinity] at h
    | _ => simp [ha, hb, UnpackedFloat.add, isFinite_eq, UnpackedFloat.isFinite] at h
  | _ =>
    cases hb : parts b with
    | infinity t => simp [ha, hb, UnpackedFloat.add, isFinite_eq, UnpackedFloat.isFinite] at h
    | notANumber => simp [ha, hb, UnpackedFloat.add, isFinite_eq, UnpackedFloat.isFinite] at h
    | _ => exact ⟨rfl, rfl⟩

theorem isFinite_foldl_of {xs : List Float} {x : Float} (h : (xs.foldl (· + ·) x).isFinite) :
    x.isFinite ∧ ∀ y ∈ xs, y.isFinite := by
  induction xs generalizing x with
  | nil => simpa using h
  | cons y ys ih =>
    obtain ⟨hsum, hys⟩ := ih h
    obtain ⟨hx, hy⟩ := isFinite_of_add hsum
    exact ⟨hx, List.forall_mem_cons.mpr ⟨hy, hys⟩⟩

theorem isFinite_of_div {a b : Float} (h : (a / b).isFinite) :
    a.isFinite ∧ b.isNaN = false ∧ ¬ b == 0 := by
  rw [div_eq] at h
  rw [isFinite_eq, isNaN_eq, beq_zero_iff]
  cases ha : parts a <;> cases hb : parts b <;>
    simp_all [UnpackedFloat.div, isFinite_eq, UnpackedFloat.isFinite, UnpackedFloat.isNaN]

/-- A mantissa that is too short is filled up with zeros first. -/
theorem round_eq (s : Sign) (m : Nat) (e : Int) :
    UnpackedFloat.round .binary64 s m e =
      roundWithAccuracy .binary64 s (m * 2 ^ (e - max (magnitude m e - 53) (-1074)).toNat)
        (e - (e - max (magnitude m e - 53) (-1074)).toNat) .exact := by
  rw [← Nat.shiftLeft_eq]
  rfl

/-- Rounding a whole number leaves the digits before the point. -/
theorem atLeast_round {n : Nat} (hn : 0 < n) :
    AtLeast (n.log2 + 1) (ofParts (UnpackedFloat.round .binary64 .positive n 0)) := by
  have hmagnitude : magnitude n 0 = n.log2 + 1 := by simp [magnitude]
  rw [round_eq, ← hmagnitude]
  exact atLeast_padded hn (by omega) (by omega)

theorem toFloat_eq_round {w : UInt64} (hw : 0 < w.toNat) :
    w.toFloat = ofParts (UnpackedFloat.round .binary64 .positive w.toNat 0) := by
  change ofParts (UnpackedFloat.normalize .binary64 (w.toNat : Int) 0 .positive) = _
  unfold UnpackedFloat.normalize
  have hcompare : compare (w.toNat : Int) 0 = .gt := by
    rw [Int.compare_eq_gt]
    omega
  rw [hcompare]
  rfl

theorem atLeast_toFloat {w : UInt64} (hw : 0 < w.toNat) :
    AtLeast (w.toNat.log2 + 1) w.toFloat := by
  rw [toFloat_eq_round hw]
  exact atLeast_round hw

theorem parts_one : parts (Float.ofNat 1) = .finite .positive (2 ^ 52) (-52) (by decide) := rfl

theorem AtLeast.mul_one {digits : Int} {x : Float} (h : AtLeast digits x) (hd : -1073 ≤ digits) :
    AtLeast digits (x * Float.ofBits 0x3FF0000000000000) := by
  have hone : parts (Float.ofBits 0x3FF0000000000000) =
      .finite .positive (2 ^ 52) (-52) (by decide) := rfl
  rw [mul_eq, hone]
  rcases h with h | ⟨m, e, hm, h, hdigits⟩
  · rw [h]
    exact .inl (parts_ofParts_infinity _)
  · have hc := canonical_parts h
    rw [h]
    change AtLeast digits (ofParts (roundWithAccuracy .binary64 .positive (m * 2 ^ 52)
      (e - (52 : Nat)) .exact))
    have hexponent := hc.exponent_eq hm
    exact (atLeast_padded hm (by omega) (by omega)).mono hdigits

theorem ofNat_of_lt {n : Nat} (h : n < 2 ^ 53) :
    n.toUInt64.toNat = n ∧
      Float.ofNat n = n.toUInt64.toFloat * Float.ofBits 0x3FF0000000000000 := by
  constructor
  · rw [Nat.toUInt64, UInt64.toNat_ofNat', Nat.mod_eq_of_lt (by omega)]
  · unfold Float.ofNat
    exact dif_pos ⟨h, by decide⟩

theorem ofNat_of_ge {n : Nat} (h : 2 ^ 53 ≤ n) : Float.ofNat n =
    ofParts (roundWithAccuracy .binary64 .positive (n * 2 ^ 53) (0 - (53 : Nat)) .exact) := by
  unfold Float.ofNat
  refine (dif_neg fun hsmall => Nat.not_lt.mpr h hsmall.1).trans ?_
  change ofParts (UnpackedFloat.ofScientific .binary64 n 0) = _
  have hlog : ¬ (0 : Int) < -(2 ^ 11 + n.log2) := by omega
  unfold UnpackedFloat.ofScientific
  rw [dif_neg (by omega), if_neg (by decide), if_neg hlog, if_pos (by decide),
    ← Nat.shiftLeft_eq, ← Nat.mul_one (n <<< 53)]
  rfl

theorem atLeast_ofNat {n : Nat} (hn : 0 < n) : AtLeast (n.log2 + 1) (Float.ofNat n) := by
  by_cases h : n < 2 ^ 53
  · obtain ⟨hword, hfloat⟩ := ofNat_of_lt h
    have hw := atLeast_toFloat (w := n.toUInt64) (by omega)
    rw [hword] at hw
    rw [hfloat]
    exact hw.mul_one (by omega)
  · have hmagnitude : magnitude n 0 = n.log2 + 1 := by simp [magnitude]
    have hlog : 53 ≤ n.log2 := (Nat.le_log2 (Nat.ne_of_gt hn)).mpr (by omega)
    rw [ofNat_of_ge (by omega), ← hmagnitude]
    exact atLeast_padded hn (by omega) (by omega)

theorem AtLeast.ne_zero {digits : Int} {x : Float} (h : AtLeast digits x) : ¬ x == 0 := by
  rw [beq_zero_iff]
  rintro ⟨s, hs⟩
  rcases h with h | ⟨m, e, hm, h, -⟩
  · rw [hs] at h
    contradiction
  · rw [hs] at h
    contradiction

theorem ofNat_ne_zero {n : Nat} (hn : 0 < n) : ¬ Float.ofNat n == 0 := (atLeast_ofNat hn).ne_zero

theorem magnitude_le {m : Nat} {e : Int} (hc : Canonical m e) : magnitude m e ≤ 1024 := by
  have hlog := log2_le_of_lt hc.bits
  have := hc.greatest
  unfold magnitude
  omega

/-- The zeros that a division appends to the dividend. -/
def padding (m₁ : Nat) (e₁ : Int) (m₂ : Nat) (e₂ : Int) : Nat :=
  (e₁ - e₂ - max (magnitude m₁ e₁ - magnitude m₂ e₂ - 53) (-1074)).toNat

theorem divCore_eq (m₁ : Nat) (e₁ : Int) (m₂ : Nat) (e₂ : Int) :
    divCore .binary64 m₁ e₁ m₂ e₂ =
      (m₁ * 2 ^ padding m₁ e₁ m₂ e₂ / m₂, e₁ - e₂ - padding m₁ e₁ m₂ e₂,
        accuracyOfFraction (m₁ * 2 ^ padding m₁ e₁ m₂ e₂ % m₂) m₂) := by
  have htarget : min (e₁ - e₂) (Float.Model.Format.binary64.targetExponent
      (totalExponent m₁ e₁ - totalExponent m₂ e₂)) = e₁ - e₂ - padding m₁ e₁ m₂ e₂ := by
    change min (e₁ - e₂) (max (magnitude m₁ e₁ - magnitude m₂ e₂ - 53) (-1074)) = _
    unfold padding
    omega
  have hshift : (e₁ - e₂ - (e₁ - e₂ - padding m₁ e₁ m₂ e₂)).toNat = padding m₁ e₁ m₂ e₂ := by
    omega
  unfold divCore
  dsimp only
  rw [htarget, hshift, Nat.shiftLeft_eq]

theorem log2_div_le {a b : Nat} (hb : 0 < b) : (a / b).log2 ≤ a.log2 - b.log2 := by
  refine log2_le_of_lt ((Nat.div_lt_iff_lt_mul hb).mpr ?_)
  calc a < 2 ^ (a.log2 + 1) := Nat.lt_log2_self
    _ ≤ 2 ^ (a.log2 - b.log2 + 1 + b.log2) := Nat.pow_le_pow_right (by decide) (by omega)
    _ = 2 ^ (a.log2 - b.log2 + 1) * 2 ^ b.log2 := Nat.pow_add ..
    _ ≤ 2 ^ (a.log2 - b.log2 + 1) * b := Nat.mul_le_mul_left _ (Nat.log2_self_le (Nat.ne_of_gt hb))

/-- A quotient has no more digits before the point than the difference of theirs, and one. -/
theorem magnitude_quotient_le {m₁ m₂ : Nat} (h₁ : 0 < m₁) (h₂ : 0 < m₂) (e₁ e₂ : Int) :
    magnitude (m₁ * 2 ^ padding m₁ e₁ m₂ e₂ / m₂) (e₁ - e₂ - padding m₁ e₁ m₂ e₂) ≤
      max (magnitude m₁ e₁ - magnitude m₂ e₂ + 1) (-1073) := by
  have hlog := log2_div_le (a := m₁ * 2 ^ padding m₁ e₁ m₂ e₂) h₂
  rw [log2_mul_two_pow h₁] at hlog
  have hpadding : e₁ - e₂ - padding m₁ e₁ m₂ e₂ ≤
      max (magnitude m₁ e₁ - magnitude m₂ e₂ - 53) (-1074) := by
    unfold padding
    omega
  unfold magnitude at *
  omega

theorem isFinite_div_of_atLeast_two {a b : Float} (ha : a.isFinite) (hb : AtLeast 2 b) :
    (a / b).isFinite := by
  rw [div_eq]
  rw [isFinite_eq] at ha
  cases h : parts a with
  | infinity s => simp [h, UnpackedFloat.isFinite] at ha
  | notANumber => simp [h, UnpackedFloat.isFinite] at ha
  | zero s =>
    rcases hb with hb | ⟨m₂, e₂, hm₂, hb, hdigits⟩
    · rw [hb, UnpackedFloat.div, isFinite_eq, parts_ofParts_zero]
      rfl
    · rw [hb, UnpackedFloat.div, isFinite_eq, parts_ofParts_zero]
      rfl
  | finite s m₁ e₁ hm₁ =>
    rcases hb with hb | ⟨m₂, e₂, hm₂, hb, hdigits⟩
    · rw [hb, UnpackedFloat.div, isFinite_eq, parts_ofParts_zero]
      rfl
    · have hc := canonical_parts h
      have hle := magnitude_le hc
      have hquotient := magnitude_quotient_le hm₁ hm₂ e₁ e₂
      rw [hb, UnpackedFloat.div, divCore_eq]
      refine isFinite_roundWithAccuracy _ _ ?_ ?_
      · omega
      · unfold padding
        omega

theorem parts_div_one {a : Float} (ha : a.isFinite) : parts (a / Float.ofNat 1) = parts a := by
  rw [div_eq, parts_one]
  rw [isFinite_eq] at ha
  cases h : parts a with
  | infinity s => simp [h, UnpackedFloat.isFinite] at ha
  | notANumber => simp [h, UnpackedFloat.isFinite] at ha
  | zero s => cases s <;> rfl
  | finite s m e hm =>
    have hc := canonical_parts h
    have hexponent := hc.exponent_eq hm
    have hunit : magnitude (2 ^ 52) (-52) = 1 := by
      rw [magnitude, Nat.log2_two_pow]
      omega
    obtain ⟨k, hk⟩ : ∃ k, padding m e (2 ^ 52) (-52) = k + 52 := by
      refine Nat.exists_eq_add_of_le' ?_
      unfold padding
      omega
    have hquotient : m * 2 ^ (k + 52) / 2 ^ 52 = m * 2 ^ k := by
      rw [Nat.pow_add, ← Nat.mul_assoc, Nat.mul_div_cancel _ (Nat.two_pow_pos 52)]
    have hremainder : m * 2 ^ (k + 52) % 2 ^ 52 = 0 := by
      rw [Nat.pow_add, ← Nat.mul_assoc, Nat.mul_mod_left]
    have hshifted : e - -52 - ((k + 52 : Nat) : Int) = e - k := by omega
    have hround := roundWithAccuracy_exact s hm hc k
    rw [UnpackedFloat.div, divCore_eq, hk, hquotient, hremainder, hshifted]
    cases s <;> exact (congrArg (parts ∘ ofParts) hround).trans (parts_ofParts_finite hc)

theorem isFinite_div_ofNat {a : Float} {n : Nat} (ha : a.isFinite) (hn : 0 < n) :
    (a / Float.ofNat n).isFinite := by
  by_cases h : n = 1
  · subst h
    rwa [isFinite_eq, parts_div_one ha]
  · have hlog : 1 ≤ n.log2 := (Nat.le_log2 (Nat.ne_of_gt hn)).mpr (by omega)
    exact isFinite_div_of_atLeast_two ha ((atLeast_ofNat hn).mono (by omega))

end SweepReport.Double
