import SweepReport.Proofs.Double.Bits
import SweepReport.Proofs.Numeral.Nearest

/-! The shortest digits of a double read back as the double. Whichever grid they are taken from, they
lie in the spread of its code, and what lies there is nearest to it. -/
namespace SweepReport.Numeral

/-- The decimal `d * 10 ^ k` lies in the spread of the code. -/
def Rounds (code d : Nat) (k : Int) : Prop :=
  (spread code).contains (gridScale code k) (d * gridPitch code k) = true

/-- A tie goes to one of the two points, and both round to the double then. -/
theorem nearer?_eq_some {tie : Tie} {d below above n : Nat} {fitsBelow fitsAbove : Bool}
    (h : nearer? tie d below above fitsBelow fitsAbove = some n) :
    n = d ∧ fitsBelow = true ∨ n = d + 1 ∧ fitsAbove = true := by
  cases fitsBelow with
  | false =>
    cases fitsAbove with
    | false => contradiction
    | true => exact .inr ⟨(Option.some.inj h).symm, rfl⟩
  | true =>
    cases fitsAbove with
    | false => exact .inl ⟨(Option.some.inj h).symm, rfl⟩
    | true =>
      simp only [nearer?] at h
      have hparity := Nat.mod_two_eq_zero_or_one d
      split at h
      · exact .inl ⟨(Option.some.inj h).symm, rfl⟩
      · split at h
        · exact .inr ⟨(Option.some.inj h).symm, rfl⟩
        · cases tie with
          | up => exact .inr ⟨(Option.some.inj h).symm, rfl⟩
          | even =>
            have hn := Option.some.inj h
            exact hparity.imp (fun h0 => ⟨by omega, rfl⟩) fun h1 => ⟨by omega, rfl⟩

theorem rounds_digitsOn {tie : Tie} {code d : Nat} {k : Int} (h : digitsOn? tie code k = some d) :
    Rounds code d k := by
  rw [digitsOn?] at h
  rcases nearer?_eq_some h with ⟨rfl, hfits⟩ | ⟨rfl, hfits⟩
  · exact hfits
  · exact hfits

theorem codeSignificand_pos {code : Nat} (hcode : 0 < code) : 0 < codeSignificand code := by
  have := code_parts code
  simp only [fractionSize_eq] at this
  omega

theorem gridScale_pos (code : Nat) (k : Int) : 0 < gridScale code k :=
  Nat.mul_pos (Nat.two_pow_pos _) (Nat.pow_pos (by decide))

theorem contains_mid {code scale : Nat} (hcode : 0 < code) (hscale : 0 < scale) :
    (spread code).contains scale ((spread code).mid * scale) = true := by
  have hm := codeSignificand_pos hcode
  have hlow : (spread code).low < (spread code).mid := by
    simp only [spread]
    split <;> omega
  have hhigh : (spread code).mid < (spread code).high := by
    simp only [spread]
    omega
  have hlow' := Nat.mul_lt_mul_of_pos_right hlow hscale
  have hhigh' := Nat.mul_lt_mul_of_pos_right hhigh hscale
  exact (contains_eq_true _).mpr ⟨hlow'.le, hhigh'.le, .inr ⟨hlow', hhigh'⟩⟩

theorem rounds_exactDigits {code : Nat} (hcode : 0 < code) :
    Rounds code (exactDigits code).1 (exactDigits code).2 := by
  -- The exact value is the middle of the spread.
  have hmid : (exactDigits code).1 * gridPitch code (exactDigits code).2 =
      (spread code).mid * gridScale code (exactDigits code).2 := by
    unfold exactDigits gridPitch gridScale spread
    simp only [Nat.pow_eq]
    split
    · rename_i hq
      have hneg : (-quarterExponent code).toNat = 0 := by omega
      simp [hneg]
    · rename_i hq
      have hpos : (quarterExponent code).toNat = 0 := by omega
      have hten : 10 ^ (-quarterExponent code).toNat =
          5 ^ (-quarterExponent code).toNat * 2 ^ (-quarterExponent code).toNat := by
        rw [← Nat.mul_pow]
      simp only [hpos, hten, Nat.pow_zero, Nat.one_mul, Nat.mul_one, Nat.mul_assoc]
  rw [Rounds, hmid]
  exact contains_mid hcode (gridScale_pos code _)

theorem rounds_shortest (tie : Tie) {code : Nat} (hcode : 0 < code) :
    Rounds code (shortest tie code).1 (shortest tie code).2 := by
  rw [shortest, if_neg (Nat.ne_of_gt hcode)]
  cases h : digitsOn? tie code (digitGrid code) with
  | some d => exact rounds_digitsOn h
  | none => exact rounds_exactDigits hcode

section
variable {code d : Nat} {k : Int}

/-- The grid in the least places of all doubles. -/
theorem gridScale_eq (code : Nat) (k : Int) :
    2 ^ min (codeExponent code) (unitExponent + 2) * gridScale code k =
      10 ^ (-k).toNat * 2 ^ codeExponent code := by
  have hexponent : min (codeExponent code) (unitExponent + 2) + (quarterExponent code).toNat =
      codeExponent code := by
    unfold quarterExponent
    omega
  calc 2 ^ min (codeExponent code) (unitExponent + 2) * gridScale code k
      = 2 ^ (min (codeExponent code) (unitExponent + 2) + (quarterExponent code).toNat) *
          10 ^ (-k).toNat := by rw [Nat.pow_add, Nat.mul_assoc]; rfl
    _ = 10 ^ (-k).toNat * 2 ^ codeExponent code := by rw [hexponent, Nat.mul_comm]

theorem gridPitch_eq (code : Nat) (k : Int) :
    2 ^ min (codeExponent code) (unitExponent + 2) * gridPitch code k =
      4 * (10 ^ k.toNat * 2 ^ unitExponent) := by
  have hexponent : min (codeExponent code) (unitExponent + 2) + (-quarterExponent code).toNat =
      unitExponent + 2 := by
    unfold quarterExponent
    omega
  calc 2 ^ min (codeExponent code) (unitExponent + 2) * gridPitch code k
      = 2 ^ (min (codeExponent code) (unitExponent + 2) + (-quarterExponent code).toNat) *
          10 ^ k.toNat := by rw [Nat.pow_add, Nat.mul_assoc]; rfl
    _ = 4 * (10 ^ k.toNat * 2 ^ unitExponent) := by rw [hexponent]; ring

theorem Rounds.contains (h : Rounds code d k) :
    (spread code).contains (10 ^ (-k).toNat * 2 ^ codeExponent code)
      (4 * (d * 10 ^ k.toNat * 2 ^ unitExponent)) = true := by
  have hpoint : 2 ^ min (codeExponent code) (unitExponent + 2) * (d * gridPitch code k) =
      4 * (d * 10 ^ k.toNat * 2 ^ unitExponent) := by
    rw [Nat.mul_left_comm, gridPitch_eq]
    ring
  rwa [Rounds, ← contains_mul _ (Nat.two_pow_pos (min (codeExponent code) (unitExponent + 2))),
    gridScale_eq, hpoint] at h

theorem Rounds.lower (hcode : 0 < code) (h : Rounds code d k) :
    10 ^ (-k).toNat ≤ d * 10 ^ k.toNat * 2 ^ (unitExponent + 1) := by
  have hbound := (spread_bounds hcode h.contains).1
  have hone : 10 ^ (-k).toNat * 2 ^ codeExponent code ≤
      codeSignificand code * (10 ^ (-k).toNat * 2 ^ codeExponent code) :=
    Nat.le_mul_of_pos_left _ (codeSignificand_pos hcode)
  have hplace : 10 ^ (-k).toNat ≤ 10 ^ (-k).toNat * 2 ^ codeExponent code :=
    Nat.le_mul_of_pos_right _ (Nat.two_pow_pos _)
  have hdouble : d * 10 ^ k.toNat * 2 ^ (unitExponent + 1) =
      2 * (d * 10 ^ k.toNat * 2 ^ unitExponent) := by ring
  omega

theorem Rounds.upper (hcode : 0 < code) (hfinite : code < infinityCode) (h : Rounds code d k) :
    d * 10 ^ k.toNat < 2 ^ 1025 * 10 ^ (-k).toNat := by
  have hbound := (spread_bounds hcode h.contains).2.1
  obtain ⟨-, hbits, -⟩ := code_parts code
  have hexponent : codeExponent code ≤ 2046 := by
    have hinfinity : infinityCode = 9218868437227405312 := rfl
    simp only [codeExponent, fractionSize_eq]
    omega
  have htop : 2 ^ 54 * 2 ^ 2046 = 2 ^ 1025 * 2 ^ (unitExponent + 1) := by
    have hsum : 54 + 2046 = 1025 + (unitExponent + 1) := rfl
    rw [← Nat.pow_add, hsum, Nat.pow_add]
  refine Nat.lt_of_mul_lt_mul_right (a := 2 ^ (unitExponent + 1)) ?_
  calc d * 10 ^ k.toNat * 2 ^ (unitExponent + 1)
      = 2 * (d * 10 ^ k.toNat * 2 ^ unitExponent) := by ring
    _ ≤ 2 * (codeSignificand code * (10 ^ (-k).toNat * 2 ^ codeExponent code)) +
          10 ^ (-k).toNat * 2 ^ codeExponent code := hbound
    _ = (2 * codeSignificand code + 1) * 2 ^ codeExponent code * 10 ^ (-k).toNat := by ring
    _ < 2 ^ 54 * 2 ^ 2046 * 10 ^ (-k).toNat := by
      refine Nat.mul_lt_mul_of_pos_right ?_ (Nat.pow_pos (by decide))
      exact Nat.mul_lt_mul_of_lt_of_le (by omega)
        (Nat.pow_le_pow_right (by decide) hexponent) (Nat.two_pow_pos _)
    _ = 2 ^ 1025 * 10 ^ (-k).toNat * 2 ^ (unitExponent + 1) := by rw [htop, Nat.mul_right_comm]

/-- Powers of two that stay below the reach of the exponents of ten. -/
theorem two_pow_lt_ten_pow {m n : Nat} (hm : m ≤ 43 * 25) (hn : 16 * 25 ≤ n) : 2 ^ m < 10 ^ n :=
  calc 2 ^ m ≤ 2 ^ (43 * 25) := Nat.pow_le_pow_right (by decide) hm
    _ = (2 ^ 43) ^ 25 := by rw [Nat.pow_mul]
    _ < (10 ^ 16) ^ 25 := Nat.pow_lt_pow_left (by decide) (by decide)
    _ = 10 ^ (16 * 25) := by rw [Nat.pow_mul]
    _ ≤ 10 ^ n := Nat.pow_le_pow_right (by decide) hn

theorem Rounds.code_eq (negative : Bool) (hcode : 0 < code) (hfinite : code < infinityCode)
    (h : Rounds code d k) : Decimal.code ⟨negative, d, k⟩ = code := by
  have hlower := h.lower hcode
  have hupper := h.upper hcode hfinite
  have hd : d ≠ 0 := by
    rintro rfl
    rw [Nat.zero_mul, Nat.zero_mul] at hlower
    exact absurd hlower (Nat.not_le_of_lt (Nat.pow_pos (by decide)))
  obtain ⟨hleast, hgreatest⟩ := length_decimalText (Nat.pos_of_ne_zero hd)
  have hlength : 0 < (decimalText d).length := Nat.length_toDigits_pos
  have hreach : exponentReach = 400 := rfl
  have hsmall : ¬ k + (decimalText d).length < -exponentReach := by
    intro hlt
    rw [hreach] at hlt
    have hk : k.toNat = 0 := by omega
    refine Nat.not_le_of_lt ?_ hlower
    calc d * 10 ^ k.toNat * 2 ^ (unitExponent + 1)
        = d * 2 ^ (unitExponent + 1) := by rw [hk, Nat.pow_zero, Nat.mul_one]
      _ < 10 ^ (decimalText d).length * 10 ^ ((-k).toNat - (decimalText d).length) :=
        Nat.mul_lt_mul_of_lt_of_le hgreatest (two_pow_lt_ten_pow (by decide) (by omega)).le
          (Nat.pow_pos (by decide))
      _ = 10 ^ (-k).toNat := by rw [← Nat.pow_add, Nat.add_sub_cancel' (by omega)]
  have hlarge : ¬ exponentReach < k + (decimalText d).length := by
    intro hlt
    rw [hreach] at hlt
    refine Nat.not_le_of_lt hupper ?_
    calc 2 ^ 1025 * 10 ^ (-k).toNat
        ≤ 10 ^ ((decimalText d).length - 1 + k.toNat - (-k).toNat) * 10 ^ (-k).toNat :=
          Nat.mul_le_mul_right _ (two_pow_lt_ten_pow (by decide) (by omega)).le
      _ = 10 ^ ((decimalText d).length - 1) * 10 ^ k.toNat := by
        rw [← Nat.pow_add, ← Nat.pow_add, Nat.sub_add_cancel (by omega)]
      _ ≤ d * 10 ^ k.toNat := Nat.mul_le_mul_right _ hleast
  have hnearest : nearestCode (d * 10 ^ k.toNat) (10 ^ (-k).toNat) = code :=
    nearestCode_eq (Nat.pow_pos (by decide)) hcode hfinite h.contains
  rw [Decimal.code_eq, if_neg (not_or.mpr ⟨hd, hsmall⟩), if_neg hlarge]
  exact hnearest

end

/-- The shortest digits of a finite double are read as the double. -/
theorem toFloat_shortest (tie : Tie) {x : Float} (hx : x.isFinite) :
    Decimal.toFloat ⟨isNegative x, (shortest tie (codeOf x)).1, (shortest tie (codeOf x)).2⟩ = x := by
  have hcode : Decimal.code ⟨isNegative x, (shortest tie (codeOf x)).1,
      (shortest tie (codeOf x)).2⟩ = codeOf x := by
    rcases Nat.eq_zero_or_pos (codeOf x) with hzero | hpos
    · rw [hzero]
      rfl
    · exact (rounds_shortest tie hpos).code_eq _ hpos (Double.codeOf_lt_infinityCode.mpr hx)
  rw [Decimal.toFloat, hcode]
  exact Double.floatOfCode_codeOf x

end SweepReport.Numeral
