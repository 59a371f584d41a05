import SweepReport.Proofs.Double.Bits
import SweepReport.Proofs.Double.Order
import SweepReport.Proofs.Numeral.Monotone

/-! The doubles that are not negative, by their codes. They come in the order of their codes, and each
has so many units of the last place of the smallest. -/
namespace SweepReport.Double
open Numeral
open Float.Model (UnpackedFloat)
open Float.Model.UnpackedFloat

def ofCode (code : Nat) : Float := floatOfCode false code

def units (code : Nat) : Nat := codeSignificand code * 2 ^ codeExponent code

theorem infinityCode_eq : infinityCode = 2047 * 2 ^ 52 := rfl

theorem ofCode_eq {code : Nat} (h : code < 2 ^ 63) :
    ofCode code =
      ofParts (ofFields .positive (.ofNat 11 (code / 2 ^ 52)) (.ofNat 52 code)) := by
  have hsign : @unpackSign .binary64 code.toUInt64.toBitVec = 0#1 := by
    apply BitVec.eq_of_toNat_eq
    simp [unpackSign, BitVec.extractLsb, Nat.shiftRight_eq_div_pow]
    omega
  have hexponent : @unpackExponent .binary64 code.toUInt64.toBitVec = .ofNat 11 (code / 2 ^ 52) := by
    apply BitVec.eq_of_toNat_eq
    rw [toNat_unpackExponent]
    simp
    omega
  have hmantissa : @unpackMantissa .binary64 code.toUInt64.toBitVec = .ofNat 52 code := by
    apply BitVec.eq_of_toNat_eq
    simp [unpackMantissa, BitVec.extractLsb]
  change ofParts (unpack .binary64 code.toUInt64.toBitVec) = _
  rw [unpack_eq, hsign, hexponent, hmantissa]
  rfl

theorem ofCode_zero : ofCode 0 = ofParts (.zero .positive) := rfl

theorem ofCode_infinity : ofCode infinityCode = ofParts (.infinity .positive) := rfl

theorem parts_ofCode_zero : parts (ofCode 0) = .zero .positive := rfl

theorem parts_ofCode_infinity : parts (ofCode infinityCode) = .infinity .positive := rfl

theorem ofCode_finite {m : Nat} {e : Int} (hm : 0 < m) (hc : Canonical m e) {code : Nat}
    (hcode : (code : Int) = (e + 1074) * 2 ^ 52 + m) :
    ofCode code = ofParts (.finite .positive m e hm) := by
  obtain ⟨hbits, hleast, hgreatest, hnormal⟩ := hc
  have hexponent : (BitVec.ofNat 11 (code / 2 ^ 52)).toNat = code / 2 ^ 52 := by
    rw [BitVec.toNat_ofNat, Nat.mod_eq_of_lt (by omega)]
  have hmantissa : (BitVec.ofNat 52 code).toNat = code % 2 ^ 52 := BitVec.toNat_ofNat ..
  have hfinite : BitVec.ofNat 11 (code / 2 ^ 52) ≠ -1#11 := fun heq => by
    rw [heq] at hexponent
    simp at hexponent
    omega
  rw [ofCode_eq (by omega), ofFields, if_neg hfinite]
  by_cases hn : 2 ^ 52 ≤ m
  · have hzero : BitVec.ofNat 11 (code / 2 ^ 52) ≠ 0#11 := fun heq => by
      rw [heq] at hexponent
      simp at hexponent
      omega
    rw [if_neg hzero]
    congr 2
    · omega
    · omega
  · have hzero : BitVec.ofNat 11 (code / 2 ^ 52) = 0#11 := BitVec.eq_of_toNat_eq (by
      rw [hexponent]
      simp
      omega)
    have hmpos : BitVec.ofNat 52 code ≠ 0#52 := fun heq => by
      rw [heq] at hmantissa
      simp at hmantissa
      omega
    rw [if_pos hzero, dif_neg hmpos]
    congr 2
    · omega
    · omega

theorem finite_of_code {code : Nat} (hpos : 0 < code) (hfinite : code < infinityCode) :
    ∃ hm, Canonical (codeSignificand code) (codeExponent code - 1074) ∧
      parts (ofCode code) = .finite .positive (codeSignificand code) (codeExponent code - 1074) hm := by
  obtain ⟨hparts, hbits, hnormal⟩ := code_parts code
  rw [infinityCode_eq] at hfinite
  rw [fractionSize_eq] at hparts
  have hm : 0 < codeSignificand code := by omega
  have hc : Canonical (codeSignificand code) (codeExponent code - 1074) :=
    ⟨hbits, by omega, by omega, by omega⟩
  refine ⟨hm, hc, ?_⟩
  rw [ofCode_finite hm hc (by omega), parts_ofParts_finite hc]

theorem isFinite_ofCode {code : Nat} (h : code < infinityCode) : (ofCode code).isFinite := by
  rcases Nat.eq_zero_or_pos code with rfl | hpos
  · rfl
  · obtain ⟨hm, -, hparts⟩ := finite_of_code hpos h
    rw [isFinite_eq, hparts]
    rfl

theorem code_cases {code : Nat} (h : code ≤ infinityCode) :
    code = 0 ∨ (0 < code ∧ code < infinityCode) ∨ code = infinityCode := by
  omega

theorem isNaN_ofCode {code : Nat} (h : code ≤ infinityCode) : (ofCode code).isNaN = false := by
  rcases code_cases h with rfl | ⟨hpos, hfinite⟩ | rfl
  · rfl
  · obtain ⟨hm, -, hparts⟩ := finite_of_code hpos hfinite
    rw [isNaN_eq, hparts]
    rfl
  · rfl

theorem rank_ofCode {code : Nat} (h : code ≤ infinityCode) :
    rank (ofCode code) =
      min ((codeExponent code : Int) * 2 ^ 53 + codeSignificand code) (2046 * 2 ^ 53) := by
  rcases code_cases h with rfl | ⟨hpos, hfinite⟩ | rfl
  · rfl
  · obtain ⟨hm, hc, hparts⟩ := finite_of_code hpos hfinite
    obtain ⟨-, hlt⟩ := rankOf_finite_bounds hm hc
    rw [rank, hparts, rankOf, Sign.apply]
    omega
  · rfl

/-- Every positive double has a code. -/
theorem exists_ofCode {x : Float} (h : 0 < rank x) :
    ∃ code, 0 < code ∧ code ≤ infinityCode ∧ x = ofCode code := by
  rw [rank] at h
  cases hparts : parts x with
  | notANumber => simp [hparts, rankOf] at h
  | zero s => simp [hparts, rankOf] at h
  | infinity s =>
    cases s
    · simp [hparts, rankOf, Sign.apply] at h
    · exact ⟨infinityCode, by decide, Nat.le_refl _, parts_inj hparts⟩
  | finite s m e hm =>
    have hc := canonical_parts hparts
    obtain ⟨hpos, hlt⟩ := rankOf_finite_bounds hm hc
    have hleast := hc.least
    cases s
    · simp only [hparts, rankOf, Sign.apply] at h
      omega
    · have hbits := hc.bits
      have hgreatest := hc.greatest
      obtain ⟨code, hcode⟩ : ∃ code : Nat, (code : Int) = (e + 1074) * 2 ^ 52 + m :=
        ⟨((e + 1074) * 2 ^ 52 + m).toNat, by omega⟩
      refine ⟨code, by omega, by rw [infinityCode_eq]; omega, ?_⟩
      rw [ofCode_finite hm hc hcode, ← hparts, ofParts_parts]

/-- The doubles that are not negative come in the order of their codes. -/
theorem ofCode_le_iff {c d : Nat} (hc : c ≤ infinityCode) (hd : d ≤ infinityCode) :
    ofCode c ≤ ofCode d ↔ c ≤ d := by
  obtain ⟨hcparts, hcbits, hcnormal⟩ := code_parts c
  obtain ⟨hdparts, hdbits, hdnormal⟩ := code_parts d
  rw [fractionSize_eq] at hcparts hdparts
  rw [le_iff, rank_ofCode hc, rank_ofCode hd]
  simp only [isNaN_ofCode hc, isNaN_ofCode hd, true_and]
  rw [infinityCode_eq] at hc hd
  omega

theorem ofCode_lt_iff {c d : Nat} (hc : c ≤ infinityCode) (hd : d ≤ infinityCode) :
    ofCode c < ofCode d ↔ c < d := by
  have hle := ofCode_le_iff hd hc
  rw [le_iff] at hle
  rw [lt_iff]
  simp only [isNaN_ofCode hc, isNaN_ofCode hd, true_and] at hle ⊢
  omega

theorem units_mono {c d : Nat} (h : c ≤ d) : units c ≤ units d := by
  obtain ⟨hcparts, hcbits, hcnormal⟩ := code_parts c
  obtain ⟨hdparts, hdbits, hdnormal⟩ := code_parts d
  rw [fractionSize_eq] at hcparts hdparts
  rcases Nat.lt_trichotomy (codeExponent c) (codeExponent d) with hlt | heq | hgt
  · calc units c ≤ 2 ^ 53 * 2 ^ codeExponent c := Nat.mul_le_mul_right _ hcbits.le
      _ = 2 ^ 52 * 2 ^ (codeExponent c + 1) := by ring
      _ ≤ 2 ^ 52 * 2 ^ codeExponent d := Nat.mul_le_mul_left _ (Nat.pow_le_pow_right (by decide) hlt)
      _ ≤ units d := Nat.mul_le_mul_right _ (by omega)
  · rw [units, units, heq]
    exact Nat.mul_le_mul_right _ (by omega)
  · omega

theorem units_zero : units 0 = 0 := rfl

theorem nearestCode_units (code : Nat) :
    nearestCode (units code) (2 ^ unitExponent) = min code infinityCode := by
  obtain ⟨hparts, hbits, hnormal⟩ := code_parts code
  rcases Nat.eq_zero_or_pos code with rfl | hpos
  · rw [units_zero, nearestCode, if_pos rfl, Nat.zero_min]
  have hpos' : 0 < units code := Nat.mul_pos (by rw [fractionSize_eq] at hparts; omega) (Nat.two_pow_pos _)
  have hunit : 0 < 2 ^ unitExponent := Nat.two_pow_pos _
  have hnum : units code * 2 ^ unitExponent =
      codeSignificand code * (2 ^ unitExponent * 2 ^ codeExponent code) := by
    rw [units]
    ring
  have hplace : 0 < 2 ^ unitExponent * 2 ^ codeExponent code := Nat.mul_pos hunit (Nat.two_pow_pos _)
  have hfits : Fits (units code) (2 ^ unitExponent) (codeExponent code) := by
    constructor
    · rw [hnum]
      exact Nat.mul_lt_mul_of_pos_right hbits hplace
    · rw [hnum]
      exact hnormal.imp_right fun hnormal => Nat.mul_le_mul_right _ hnormal
  have hround := roundDiv_mul_right hplace (codeSignificand code) 1
  rw [Nat.one_mul, roundDiv_one] at hround
  rw [hfits.nearestCode_eq hpos' hunit, hnum, hround]
  exact congrArg (min · infinityCode) hparts

end SweepReport.Double
