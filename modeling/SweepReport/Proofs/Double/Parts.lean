import Mathlib
import SweepReport.Scalar

/-! Doubles by their parts. A finite double that is not zero is a sign, a mantissa and an exponent
in one form, and packing parts of that form loses nothing. -/
namespace SweepReport.Double
open Float.Model (UnpackedFloat)
open Float.Model.UnpackedFloat

def parts (x : Float) : UnpackedFloat := x.toModel.unpack

def ofParts (u : UnpackedFloat) : Float := .ofModel (.pack u)

/-- The form of the mantissa and exponent of a finite double: all 53 bits are used unless the
exponent is the least. -/
structure Canonical (m : Nat) (e : Int) : Prop where
  bits : m < 2 ^ 53
  least : -1074 ≤ e
  greatest : e ≤ 971
  normal : 2 ^ 52 ≤ m ∨ e = -1074

def ofFields (sign : Sign) (exponent : BitVec 11) (mantissa : BitVec 52) : UnpackedFloat :=
  if exponent = -1#11 then if mantissa = 0#52 then .infinity sign else .notANumber
  else if exponent = 0#11 then
    if h : mantissa = 0#52 then .zero sign
    else .finite sign mantissa.toNat (-1074) (by simpa [BitVec.toNat_pos, BitVec.pos_iff_ne_zero])
  else .finite sign (2 ^ 52 + mantissa.toNat) (exponent.toNat - 1075) (by omega)

/-- The bit that normal doubles leave out. -/
theorem toNat_implicit (mantissa : BitVec 52) :
    (1#1 ++ mantissa).toNat = 2 ^ 52 + mantissa.toNat := by
  rw [BitVec.toNat_append, ← Nat.shiftLeft_add_eq_or_of_lt mantissa.isLt]
  simp [Nat.shiftLeft_eq]

theorem unpack_eq (bits : BitVec 64) :
    unpack .binary64 bits =
      ofFields (Sign.ofBitVec (@unpackSign .binary64 bits))
        (@unpackExponent .binary64 bits) (@unpackMantissa .binary64 bits) := by
  unfold unpack ofFields
  simp only [toNat_implicit]
  split
  · rfl
  · split
    · rename_i h
      simp only [h]
      rfl
    · rfl

theorem unpackSign_packComponents {sign : Sign} {exponent : BitVec 11} {mantissa : BitVec 52} :
    unpackSign (packComponents .binary64 sign exponent mantissa) = sign.toBitVec := by
  ext i hi
  obtain rfl : i = 0 := by omega
  simp only [unpackSign, packComponents, BitVec.getElem_cast, BitVec.extractLsb,
    BitVec.getElem_extractLsb', BitVec.getLsbD_append]
  simp

theorem ofBitVec_toBitVec (sign : Sign) : Sign.ofBitVec sign.toBitVec = sign := by
  cases sign <;> rfl

theorem isFinite_ofFields {sign : Sign} {exponent : BitVec 11} {mantissa : BitVec 52} :
    (ofFields sign exponent mantissa).isFinite ↔ exponent ≠ -1#11 := by
  unfold ofFields
  split
  · split <;> simp_all [UnpackedFloat.isFinite]
  · split
    · split <;> simp_all [UnpackedFloat.isFinite]
    · simp_all [UnpackedFloat.isFinite]

theorem unpack_packComponents {sign : Sign} {exponent : BitVec 11} {mantissa : BitVec 52} :
    unpack .binary64 (packComponents .binary64 sign exponent mantissa) =
      ofFields sign exponent mantissa := by
  rw [unpack_eq, unpackSign_packComponents, unpackExponent_packComponents,
    unpackMantissa_packComponents, ofBitVec_toBitVec]

theorem pack_finite {s : Sign} {m : Nat} {e : Int} {hm : 0 < m} :
    pack .binary64 (.finite s m e hm) =
      if 971 < e then packedInfinity .binary64 s
      else if m.log2 + 1 = 53 then
        packComponents .binary64 s (.ofNat 11 (e + 1075).toNat) (.ofNat 52 m)
      else packComponents .binary64 s 0#11 (.ofNat 52 m) := by
  have hbiased : (e + 1023 + 52).toNat = (e + 1075).toNat := by omega
  by_cases he : 971 < e
  · rw [if_pos he]
    exact if_pos (show 2 ^ 11 ≤ (e + 1023 + 52).toNat + 1 by omega)
  · rw [if_neg he, ← hbiased]
    exact if_neg (show ¬ 2 ^ 11 ≤ (e + 1023 + 52).toNat + 1 by omega)

/-- The double's parts are the ones it was made of where those are in form. -/
theorem parts_ofParts_finite {s : Sign} {m : Nat} {e : Int} {hm : 0 < m} (hc : Canonical m e) :
    parts (ofParts (.finite s m e hm)) = .finite s m e hm := by
  obtain ⟨hbits, hleast, hgreatest, hnormal⟩ := hc
  change unpack .binary64 (pack .binary64 (.finite s m e hm)) = _
  rw [pack_finite, if_neg (by omega)]
  by_cases hn : 2 ^ 52 ≤ m
  · have hlog : m.log2 + 1 = 53 := by
      rw [(Nat.log2_eq_iff (by omega)).mpr ⟨hn, hbits⟩]
    have hexponent : (BitVec.ofNat 11 (e + 1075).toNat).toNat = (e + 1075).toNat := by
      rw [BitVec.toNat_ofNat, Nat.mod_eq_of_lt (by omega)]
    have hmantissa : (BitVec.ofNat 52 m).toNat = m - 2 ^ 52 := by
      rw [BitVec.toNat_ofNat]
      omega
    rw [if_pos hlog, unpack_packComponents, ofFields, if_neg, if_neg]
    · simp only [hexponent, hmantissa, finite.injEq, true_and]
      omega
    · rw [← BitVec.toNat_inj, hexponent]
      simp
      omega
    · rw [← BitVec.toNat_inj, hexponent]
      simp
      omega
  · have hlog : m.log2 + 1 ≠ 53 := by
      have := (Nat.log2_lt (n := m) (by omega)).mpr (Nat.lt_of_not_le hn)
      omega
    have hmantissa : (BitVec.ofNat 52 m).toNat = m := by
      rw [BitVec.toNat_ofNat, Nat.mod_eq_of_lt (by omega)]
    rw [if_neg hlog, unpack_packComponents, ofFields, if_neg (by decide), if_pos rfl, dif_neg]
    · simp only [hmantissa, finite.injEq, true_and]
      omega
    · rw [← BitVec.toNat_inj, hmantissa]
      simp
      omega

@[simp] theorem parts_ofParts_zero (s : Sign) : parts (ofParts (.zero s)) = .zero s := by
  cases s <;> rfl

@[simp] theorem parts_ofParts_infinity (s : Sign) :
    parts (ofParts (.infinity s)) = .infinity s := by
  cases s <;> rfl

@[simp] theorem parts_ofParts_notANumber : parts (ofParts .notANumber) = .notANumber := rfl

theorem canonical_parts {x : Float} {s : Sign} {m : Nat} {e : Int} {hm : 0 < m}
    (h : parts x = .finite s m e hm) : Canonical m e := by
  change unpack .binary64 x.toModel.toBits.toBitVec = _ at h
  rw [unpack_eq, ofFields] at h
  generalize @unpackExponent .binary64 x.toModel.toBits.toBitVec = exponent at h
  generalize @unpackMantissa .binary64 x.toModel.toBits.toBitVec = mantissa at h
  have hexponent : exponent.toNat < 2 ^ 11 := exponent.isLt
  have hmantissa : mantissa.toNat < 2 ^ 52 := mantissa.isLt
  split at h
  · split at h <;> contradiction
  · rename_i hinfinite
    split at h
    · split at h
      · contradiction
      · obtain ⟨-, rfl, rfl⟩ := finite.inj h
        exact ⟨by omega, by decide, by decide, .inr rfl⟩
    · rename_i hzero
      obtain ⟨-, rfl, rfl⟩ := finite.inj h
      rw [← BitVec.toNat_inj] at hinfinite hzero
      simp at hinfinite hzero
      exact ⟨by omega, by omega, by omega, .inl (by omega)⟩

theorem isFinite_eq (x : Float) : x.isFinite = (parts x).isFinite := rfl

theorem isNaN_eq (x : Float) : x.isNaN = (parts x).isNaN := rfl

theorem parts_ofParts_overflow {s : Sign} {m : Nat} {e : Int} {hm : 0 < m} (he : 971 < e) :
    parts (ofParts (.finite s m e hm)) = .infinity s := by
  change unpack .binary64 (pack .binary64 (.finite s m e hm)) = _
  rw [pack_finite, if_pos he]
  cases s <;> rfl

theorem isFinite_ofParts_finite {s : Sign} {m : Nat} {e : Int} {hm : 0 < m} :
    (ofParts (.finite s m e hm)).isFinite ↔ e ≤ 971 := by
  by_cases he : 971 < e
  · rw [isFinite_eq, parts_ofParts_overflow he]
    exact iff_of_false (by simp [UnpackedFloat.isFinite]) (by omega)
  · refine iff_of_true ?_ (by omega)
    change (unpack .binary64 (pack .binary64 (.finite s m e hm))).isFinite
    rw [pack_finite, if_neg he]
    split
    · rw [unpack_packComponents, isFinite_ofFields, Ne, ← BitVec.toNat_inj, BitVec.toNat_ofNat,
        Nat.mod_eq_of_lt (by omega)]
      simp
      omega
    · rw [unpack_packComponents, isFinite_ofFields]
      decide

end SweepReport.Double
