import SweepReport.Numeral.Binary
import SweepReport.Proofs.Double.Parts

/-! Doubles by their bits. Parts and bits both say all there is to say about a double: its sign is
one bit, and the others are its code. -/
namespace SweepReport.Double
open Numeral
open Float.Model (UnpackedFloat)
open Float.Model.UnpackedFloat

theorem toBitVec_ofBitVec (b : BitVec 1) : (Sign.ofBitVec b).toBitVec = b := by
  revert b
  decide

theorem packComponents_unpack (bits : BitVec 64) :
    packComponents .binary64 (Sign.ofBitVec (@unpackSign .binary64 bits))
      (@unpackExponent .binary64 bits) (@unpackMantissa .binary64 bits) = bits := by
  simp only [packComponents, toBitVec_ofBitVec, unpackSign, unpackExponent, unpackMantissa,
    BitVec.extractLsb]
  ext i hi
  grind

/-- Packing fields that were unpacked gives the fields back, those of no number apart. -/
theorem pack_ofFields {sign : Sign} {exponent : BitVec 11} {mantissa : BitVec 52}
    (h : exponent = -1#11 → mantissa = 0#52) :
    pack .binary64 (ofFields sign exponent mantissa) =
      packComponents .binary64 sign exponent mantissa := by
  have hmantissa : mantissa.toNat < 2 ^ 52 := mantissa.isLt
  have hexponent : exponent.toNat < 2 ^ 11 := exponent.isLt
  unfold ofFields
  split
  · rename_i hmax
    rw [if_pos (h hmax), hmax, h hmax]
    rfl
  · rename_i hmax
    split
    · rename_i hzero
      split
      · rename_i hmzero
        rw [hzero, hmzero]
        rfl
      · have hlog : mantissa.toNat.log2 + 1 ≠ 53 := by
          by_cases hm : mantissa.toNat = 0
          · simp [hm]
          · have := (Nat.log2_lt hm).mpr hmantissa
            omega
        rw [pack_finite, if_neg (by decide), if_neg hlog, hzero, BitVec.ofNat_toNat,
          BitVec.setWidth_eq]
    · rename_i hzero
      have hlog : (2 ^ 52 + mantissa.toNat).log2 + 1 = 53 := by
        rw [(Nat.log2_eq_iff (k := 52) (by omega)).mpr ⟨by omega, by omega⟩]
      have hmax' : exponent.toNat ≠ 2047 := fun he =>
        hmax (BitVec.eq_of_toNat_eq (by rw [he]; rfl))
      have hback : BitVec.ofNat 52 (2 ^ 52 + mantissa.toNat) = mantissa := by
        rw [← BitVec.toNat_inj, BitVec.toNat_ofNat]
        omega
      have hbiased : ((exponent.toNat : Int) - 1075 + 1075).toNat = exponent.toNat := by omega
      rw [pack_finite, if_neg (by omega), if_pos hlog, hback, hbiased, BitVec.ofNat_toNat,
        BitVec.setWidth_eq]

@[simp] theorem ofParts_parts (x : Float) : ofParts (parts x) = x := by
  obtain ⟨bits, hvalid⟩ := x
  have hbits : pack .binary64 (unpack .binary64 bits.toBitVec) = bits.toBitVec := by
    by_cases hnan : @unpackExponent .binary64 bits.toBitVec = -1#11 ∧
        @unpackMantissa .binary64 bits.toBitVec ≠ 0#52
    · rw [unpack_eq, ofFields, if_pos hnan.1, if_neg hnan.2]
      exact (hvalid.eq_packedNaN hnan.1 hnan.2).symm
    · rw [unpack_eq, pack_ofFields (by simpa using hnan), packComponents_unpack]
  simp only [ofParts, parts, Float.Model.pack, Float.Model.unpack, hbits]

theorem parts_inj {x y : Float} (h : parts x = parts y) : x = y := by
  rw [← ofParts_parts x, h, ofParts_parts]

theorem ofBits_toBits (x : Float) : Float.ofBits x.toBits = x := ofParts_parts x

theorem toNat_unpackExponent (bits : BitVec 64) :
    (@unpackExponent .binary64 bits).toNat = bits.toNat / 2 ^ 52 % 2 ^ 11 := by
  simp [unpackExponent, BitVec.extractLsb, Nat.shiftRight_eq_div_pow]

theorem codeOf_eq (x : Float) : codeOf x = x.toBits.toNat % 2 ^ 63 := by
  rw [← Nat.and_two_pow_sub_one_eq_mod]
  exact UInt64.toNat_and ..

/-- The finite doubles are those whose codes come before the one of infinity. -/
theorem codeOf_lt_infinityCode {x : Float} : codeOf x < infinityCode ↔ x.isFinite := by
  have hinfinity : infinityCode = 2047 * 2 ^ 52 := rfl
  have hfinite : x.isFinite ↔ x.toBits.toNat / 2 ^ 52 % 2 ^ 11 ≠ 2047 := by
    rw [isFinite_eq]
    change (unpack .binary64 x.toModel.toBits.toBitVec).isFinite ↔ _
    rw [unpack_eq, isFinite_ofFields, Ne, ← BitVec.toNat_inj, toNat_unpackExponent]
    rfl
  rw [codeOf_eq, hfinite, hinfinity]
  omega

theorem toBitVec_signBit : signBit.toBitVec = BitVec.twoPow 64 63 := rfl

theorem and_signBit_eq_zero_iff (b : UInt64) : b &&& signBit = 0 ↔ b.toBitVec[63] = false := by
  rw [← UInt64.toBitVec_inj, UInt64.toBitVec_and, toBitVec_signBit, BitVec.and_twoPow,
    BitVec.getLsbD_eq_getElem (by decide)]
  cases b.toBitVec[63] <;> decide

theorem signed_bits (b : UInt64) :
    (if b &&& signBit != 0 then signBit ||| (b &&& ~~~signBit) else b &&& ~~~signBit) = b := by
  have hsign := and_signBit_eq_zero_iff b
  apply UInt64.eq_of_toBitVec_eq
  ext i hi
  by_cases h63 : i = 63
  · subst h63
    split
    · rename_i h
      have hset : b.toBitVec[63] = true := by simpa [hsign] using h
      simp [toBitVec_signBit, hset]
    · rename_i h
      have hclear : b.toBitVec[63] = false := by simpa [hsign] using h
      simp [toBitVec_signBit, hclear]
  · split <;> simp [toBitVec_signBit, h63]

/-- A double is its sign and its code. -/
theorem floatOfCode_codeOf (x : Float) : floatOfCode (isNegative x) (codeOf x) = x := by
  have hcode : (codeOf x).toUInt64 = x.toBits &&& ~~~signBit := UInt64.ofNat_toNat
  rw [floatOfCode, hcode, isNegative, signed_bits, ofBits_toBits]

end SweepReport.Double
