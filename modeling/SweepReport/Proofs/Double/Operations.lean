import SweepReport.Proofs.Double.Counting
import SweepReport.Proofs.Double.Nearest

/-! Counts, and sums and products of doubles that are not negative, as nearest doubles. Each is what the
exact result is rounded to, and that is a ratio of the units of the operands. -/
namespace SweepReport.Double
open Numeral
open Float.Model (UnpackedFloat)
open Float.Model.UnpackedFloat

theorem ofNat_eq (n : Nat) : Float.ofNat n = ofCode (nearestCode n 1) := by
  rcases Nat.eq_zero_or_pos n with rfl | hn
  · rfl
  rw [← codeNear_zero]
  by_cases h : n < 2 ^ 53
  · obtain ⟨hword, hfloat⟩ := ofNat_of_lt h
    have hone : Float.ofBits 0x3FF0000000000000 = Float.ofNat 1 := parts_inj rfl
    rw [hfloat, hone, mul_one, toFloat_eq_round (by omega), hword]
    exact ofParts_round hn 0
  · have hlog : 53 ≤ n.log2 := (Nat.le_log2 (Nat.ne_of_gt hn)).mpr (by omega)
    have hmagnitude : magnitude (n * 2 ^ 53) (0 - (53 : Nat)) = n.log2 + 1 := by
      rw [magnitude_mul_two_pow hn, magnitude]
      omega
    rw [ofNat_of_ge (by omega), ofParts_roundWithAccuracy (Nat.mul_pos hn (Nat.two_pow_pos _)),
      codeNear_shift]
    rw [hmagnitude]
    omega

theorem mul_comm (a b : Float) : a * b = b * a := by
  rw [mul_eq, mul_eq]
  congr 1
  have hsign (s t : Sign) : s * t = t * s := by cases s <;> cases t <;> rfl
  cases parts a with
  | finite s m e hm =>
    cases parts b with
    | finite t n f hn =>
      change roundWithAccuracy .binary64 (s * t) (m * n) (e + f) .exact =
        roundWithAccuracy .binary64 (t * s) (n * m) (f + e) .exact
      rw [hsign, Nat.mul_comm, Int.add_comm]
    | _ => simp only [UnpackedFloat.mul, hsign]
  | _ => cases parts b <;> simp only [UnpackedFloat.mul, hsign]

theorem add_comm (a b : Float) : a + b = b + a := by
  rw [add_eq, add_eq]
  congr 1
  cases parts a with
  | notANumber => cases parts b <;> rfl
  | infinity s =>
    cases parts b with
    | infinity t => cases s <;> cases t <;> rfl
    | _ => rfl
  | zero s =>
    cases parts b with
    | zero t => cases s <;> cases t <;> rfl
    | _ => rfl
  | finite s m e hm =>
    cases parts b with
    | finite t n f hn =>
      change UnpackedFloat.normalize .binary64
          (s.apply (decreaseExponent m e (min e f)).1 + t.apply (decreaseExponent n f (min e f)).1)
          (min e f) .positive =
        UnpackedFloat.normalize .binary64
          (t.apply (decreaseExponent n f (min f e)).1 + s.apply (decreaseExponent m e (min f e)).1)
          (min f e) .positive
      rw [Int.min_comm f e, Int.add_comm]
    | _ => rfl

/-- A product of two mantissas is long enough, unless its exponent is small enough. -/
theorem Canonical.exponent_mul_le {m n : Nat} {e f : Int} (hm : 0 < m) (hn : 0 < n)
    (hc : Canonical m e) (hd : Canonical n f) :
    e + f ≤ max (magnitude (m * n) (e + f) - 53) (-1074) := by
  have hpos := Nat.mul_pos hm hn
  have hlog : e = -1074 ∧ f = -1074 ∨ 52 ≤ (m * n).log2 := by
    rw [Nat.le_log2 (Nat.ne_of_gt hpos)]
    rcases hc.normal with hnormal | hleast
    · exact .inr (hnormal.trans (Nat.le_mul_of_pos_right _ hn))
    · rcases hd.normal with hnormal | hleast'
      · exact .inr (hnormal.trans (Nat.le_mul_of_pos_left _ hm))
      · exact .inl ⟨hleast, hleast'⟩
  unfold magnitude
  omega

theorem nearestCode_le (num den : Nat) : nearestCode num den ≤ infinityCode := by
  unfold nearestCode
  split
  · exact Nat.zero_le _
  · exact Nat.min_le_right ..

theorem nearestCode_of_units_infinity_le {n : Nat} (h : units infinityCode ≤ n) :
    nearestCode n (2 ^ unitExponent) = infinityCode := by
  refine Nat.le_antisymm (nearestCode_le ..) ?_
  have hmono := nearestCode_mono_left (Nat.two_pow_pos unitExponent) h
  rwa [nearestCode_units, Nat.min_self] at hmono

section
variable {c d : Nat}

theorem zero_add_ofCode (hd : d ≤ infinityCode) : ofCode 0 + ofCode d = ofCode d := by
  apply parts_inj
  rw [add_eq, parts_ofCode_zero]
  rcases code_cases hd with rfl | ⟨hpos, hfinite⟩ | rfl
  · rfl
  · obtain ⟨hn, hcanonical, hparts⟩ := finite_of_code hpos hfinite
    rw [hparts]
    exact parts_ofParts_finite hcanonical
  · rfl

theorem infinity_add_ofCode (hd : d ≤ infinityCode) :
    ofCode infinityCode + ofCode d = ofCode infinityCode := by
  apply parts_inj
  rw [add_eq, parts_ofCode_infinity]
  rcases code_cases hd with rfl | ⟨hpos, hfinite⟩ | rfl
  · rfl
  · obtain ⟨hn, -, hparts⟩ := finite_of_code hpos hfinite
    rw [hparts]
    exact parts_ofParts_infinity .positive
  · rfl

theorem zero_mul_ofCode (hd : d < infinityCode) : ofCode 0 * ofCode d = ofCode 0 := by
  apply parts_inj
  rw [mul_eq, parts_ofCode_zero]
  rcases Nat.eq_zero_or_pos d with rfl | hpos
  · rfl
  · obtain ⟨hn, -, hparts⟩ := finite_of_code hpos hd
    rw [hparts]
    exact parts_ofParts_zero .positive

theorem units_eq {k : Nat} (h : k ≤ codeExponent c) :
    codeSignificand c * 2 ^ (codeExponent c - k) * 2 ^ k = units c := by
  rw [units, Nat.mul_assoc, ← Nat.pow_add, Nat.sub_add_cancel h]

theorem finite_add_finite (hcpos : 0 < c) (hc : c < infinityCode) (hdpos : 0 < d)
    (hd : d < infinityCode) :
    ofCode c + ofCode d = ofCode (nearestCode (units c + units d) (2 ^ unitExponent)) := by
  obtain ⟨hm, -, hcparts⟩ := finite_of_code hcpos hc
  obtain ⟨hn, -, hdparts⟩ := finite_of_code hdpos hd
  obtain ⟨k, hk⟩ : ∃ k, k = min (codeExponent c) (codeExponent d) := ⟨_, rfl⟩
  have hmin : min ((codeExponent c : Int) - 1074) (codeExponent d - 1074) = k - 1074 := by omega
  have hleft : ((codeExponent c : Int) - 1074 - (k - 1074)).toNat = codeExponent c - k := by omega
  have hright : ((codeExponent d : Int) - 1074 - (k - 1074)).toNat = codeExponent d - k := by omega
  have hunits : units c + units d = (codeSignificand c * 2 ^ (codeExponent c - k) +
      codeSignificand d * 2 ^ (codeExponent d - k)) * 2 ^ k := by
    rw [Nat.add_mul, units_eq (by omega), units_eq (by omega)]
  have hleast : (-(unitExponent : Nat) : Int) = (k - 1074) - k := by
    unfold unitExponent
    omega
  rw [add_eq, hcparts, hdparts, add_positive hm hn, hmin, hleft, hright,
    ofParts_round (Nat.add_pos_left (Nat.mul_pos hm (Nat.two_pow_pos _)) _),
    ← codeNear_neg, hunits, hleast, codeNear_shift]

/-- The sum of two doubles is the one nearest to the sum of their units, infinity among them. -/
theorem ofCode_add (hc : c ≤ infinityCode) (hd : d ≤ infinityCode) :
    ofCode c + ofCode d = ofCode (nearestCode (units c + units d) (2 ^ unitExponent)) := by
  rcases code_cases hc with rfl | ⟨hcpos, hcfinite⟩ | rfl
  · rw [zero_add_ofCode hd, units_zero, Nat.zero_add, nearestCode_units, Nat.min_eq_left hd]
  · rcases code_cases hd with rfl | ⟨hdpos, hdfinite⟩ | rfl
    · rw [add_comm, zero_add_ofCode hc, units_zero, Nat.add_zero, nearestCode_units, Nat.min_eq_left hc]
    · exact finite_add_finite hcpos hcfinite hdpos hdfinite
    · rw [add_comm, infinity_add_ofCode hc, nearestCode_of_units_infinity_le (Nat.le_add_left ..)]
  · rw [infinity_add_ofCode hd, nearestCode_of_units_infinity_le (Nat.le_add_right ..)]

/-- The product of two finite doubles is the one nearest to the product of their units. -/
theorem ofCode_mul (hc : c < infinityCode) (hd : d < infinityCode) :
    ofCode c * ofCode d =
      ofCode (nearestCode (units c * units d) (2 ^ (unitExponent + unitExponent))) := by
  rcases Nat.eq_zero_or_pos c with rfl | hcpos
  · rw [zero_mul_ofCode hd, units_zero, Nat.zero_mul, nearestCode, if_pos rfl]
  rcases Nat.eq_zero_or_pos d with rfl | hdpos
  · rw [mul_comm, zero_mul_ofCode hc, units_zero, Nat.mul_zero, nearestCode, if_pos rfl]
  obtain ⟨hm, hcc, hcparts⟩ := finite_of_code hcpos hc
  obtain ⟨hn, hdc, hdparts⟩ := finite_of_code hdpos hd
  have hunits : units c * units d = codeSignificand c * codeSignificand d *
      2 ^ (codeExponent c + codeExponent d) := by
    rw [units, units]
    ring
  have hleast : (-(unitExponent + unitExponent : Nat) : Int) =
      (codeExponent c - 1074 + (codeExponent d - 1074)) - (codeExponent c + codeExponent d : Nat) := by
    unfold unitExponent
    omega
  rw [mul_eq, hcparts, hdparts, ← codeNear_neg, hunits, hleast, codeNear_shift]
  exact ofParts_roundWithAccuracy (Nat.mul_pos hm hn) (hcc.exponent_mul_le hm hn hdc)

end

end SweepReport.Double
