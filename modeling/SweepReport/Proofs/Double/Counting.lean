import SweepReport.Proofs.Double.Bits
import SweepReport.Proofs.Double.Special

/-! Multiplying by one and counting by ones. A product with one is the other factor; a sum of ones
counts them, until at `2 ^ 53` one more is half a step and the sum stays where it is. -/
namespace SweepReport.Double
open Float.Model (UnpackedFloat)
open Float.Model.UnpackedFloat

theorem mul_one (a : Float) : a * Float.ofNat 1 = a := by
  apply parts_inj
  rw [mul_eq, parts_one]
  cases h : parts a with
  | notANumber => rfl
  | infinity s => cases s <;> rfl
  | zero s => cases s <;> rfl
  | finite s m e hm =>
    have hc := canonical_parts h
    have hround := roundWithAccuracy_exact s hm hc 52
    have hsign : s * Sign.positive = s := by cases s <;> rfl
    rw [UnpackedFloat.mul, hsign]
    exact (congrArg (parts ∘ ofParts) hround).trans (parts_ofParts_finite hc)

def countParts (n : Nat) (hn : 0 < n) : UnpackedFloat :=
  .finite .positive (n * 2 ^ (52 - n.log2)) (n.log2 - 52) (Nat.mul_pos hn (Nat.two_pow_pos _))

def topParts : UnpackedFloat := .finite .positive (2 ^ 52) 1 (by decide)

def IsCount (x : Float) : Prop :=
  parts x = topParts ∨ ∃ n hn, n < 2 ^ 53 ∧ parts x = countParts n hn

theorem canonical_count {n : Nat} (hn : 0 < n) (h : n < 2 ^ 53) :
    Canonical (n * 2 ^ (52 - n.log2)) (n.log2 - 52) := by
  have hlog : n.log2 ≤ 52 := log2_le_of_lt h
  refine ⟨?_, by omega, by omega, .inl ?_⟩
  · calc n * 2 ^ (52 - n.log2) < 2 ^ (n.log2 + 1) * 2 ^ (52 - n.log2) :=
          Nat.mul_lt_mul_of_pos_right Nat.lt_log2_self (Nat.two_pow_pos _)
      _ = 2 ^ 53 := by rw [← Nat.pow_add]; congr 1; omega
  · calc 2 ^ 52 = 2 ^ n.log2 * 2 ^ (52 - n.log2) := by rw [← Nat.pow_add]; congr 1; omega
      _ ≤ n * 2 ^ (52 - n.log2) := Nat.mul_le_mul_right _ (Nat.log2_self_le (Nat.ne_of_gt hn))

/-- A sum of positive numbers is formed at the smaller exponent and rounded. -/
theorem add_positive {m n : Nat} (hm : 0 < m) (hn : 0 < n) (e f : Int) :
    UnpackedFloat.add .binary64 (.finite .positive m e hm) (.finite .positive n f hn) =
      UnpackedFloat.round .binary64 .positive
        (m * 2 ^ (e - min e f).toNat + n * 2 ^ (f - min e f).toNat) (min e f) := by
  have hpos : 0 < m * 2 ^ (e - min e f).toNat + n * 2 ^ (f - min e f).toNat :=
    Nat.add_pos_left (Nat.mul_pos hm (Nat.two_pow_pos _)) _
  rw [← Nat.shiftLeft_eq, ← Nat.shiftLeft_eq] at *
  have hcompare : compare
      ((m <<< (e - min e f).toNat : Nat) + (n <<< (f - min e f).toNat : Nat) : Int) 0 = .gt := by
    rw [Int.compare_eq_gt]
    exact_mod_cast hpos
  change UnpackedFloat.normalize .binary64
    ((m <<< (e - min e f).toNat : Nat) + (n <<< (f - min e f).toNat : Nat)) (min e f) .positive = _
  rw [UnpackedFloat.normalize, hcompare]
  rfl

theorem count_units {n : Nat} (h : n < 2 ^ 53) :
    n * 2 ^ (52 - n.log2) * 2 ^ n.log2 = n * 2 ^ 52 := by
  rw [Nat.mul_assoc, ← Nat.pow_add, Nat.sub_add_cancel (log2_le_of_lt h)]

theorem parts_succ {x : Float} {n : Nat} (hn : 0 < n) (hn' : 0 < n + 1) (h : n + 1 < 2 ^ 53)
    (hx : parts x = countParts n hn) : parts (x + Float.ofNat 1) = countParts (n + 1) hn' := by
  have hlog : n.log2 ≤ 52 := log2_le_of_lt (by omega)
  have hc := canonical_count hn' h
  have hpos : 0 < (n + 1) * 2 ^ (52 - (n + 1).log2) := Nat.mul_pos hn' (Nat.two_pow_pos _)
  have hmin : min ((n.log2 : Int) - 52) (-52) = -52 := by omega
  have hleft : ((n.log2 : Int) - 52 - -52).toNat = n.log2 := by omega
  have hright : (-52 - -52 : Int).toNat = 0 := rfl
  have hunits : n * 2 ^ 52 + 2 ^ 52 * 2 ^ 0 =
      (n + 1) * 2 ^ (52 - (n + 1).log2) * 2 ^ (n + 1).log2 := by
    rw [count_units h, Nat.succ_mul, Nat.pow_zero, Nat.mul_one]
  have hexponent : ((n + 1).log2 : Int) - 52 - (n + 1).log2 = -52 := by omega
  have hmagnitude : magnitude ((n + 1) * 2 ^ (52 - (n + 1).log2) * 2 ^ (n + 1).log2) (-52) =
      (n + 1).log2 + 1 := by
    have hlog' := log2_le_of_lt h
    rw [← hexponent, magnitude_mul_two_pow hpos, magnitude, log2_mul_two_pow hn']
    omega
  have hround := roundWithAccuracy_exact .positive hpos hc (n + 1).log2
  rw [hexponent] at hround
  have hnone : (-52 - max ((((n + 1).log2 : Int) + 1) - 53) (-1074)).toNat = 0 := by omega
  rw [add_eq, hx, parts_one, countParts, add_positive, hmin, hleft, hright, count_units (by omega),
    hunits, round_eq, hmagnitude, hnone, Nat.pow_zero, Nat.mul_one, Int.natCast_zero, Int.sub_zero,
    hround]
  exact parts_ofParts_finite hc

theorem parts_last_succ :
    parts (ofParts (UnpackedFloat.add .binary64 (countParts (2 ^ 53 - 1) (by decide))
      (parts (Float.ofNat 1)))) = topParts := rfl

theorem IsCount.succ {x : Float} (h : IsCount x) : IsCount (x + Float.ofNat 1) := by
  rcases h with h | ⟨n, hn, hlt, h⟩
  · refine .inl ?_
    rw [add_eq, h]
    rfl
  · by_cases hlast : n + 1 < 2 ^ 53
    · exact .inr ⟨n + 1, Nat.succ_pos n, hlast, parts_succ hn _ hlast h⟩
    · obtain rfl : n = 2 ^ 53 - 1 := by omega
      refine .inl ?_
      rw [add_eq, h]
      exact parts_last_succ

theorem IsCount.isFinite {x : Float} (h : IsCount x) : x.isFinite := by
  rw [isFinite_eq]
  rcases h with h | ⟨n, hn, -, h⟩
  · rw [h]
    rfl
  · rw [h]
    rfl

theorem IsCount.not_le_zero {x : Float} (h : IsCount x) : ¬ x ≤ Float.ofNat 0 := by
  intro hle
  obtain ⟨-, -, hrank⟩ := le_iff.mp hle
  have hzero : rank (Float.ofNat 0) = 0 := rfl
  rw [hzero, rank] at hrank
  rcases h with h | ⟨n, hn, hlt, h⟩
  · rw [h] at hrank
    simp [topParts, rankOf, Sign.apply] at hrank
  · obtain ⟨hpos, -⟩ :=
      rankOf_finite_bounds (Nat.mul_pos hn (Nat.two_pow_pos _)) (canonical_count hn hlt)
    rw [h] at hrank
    simp only [countParts, rankOf, Sign.apply] at hrank
    omega

theorem isCount_sum {n : Nat} (hn : 0 < n) :
    IsCount (Scalar.sum (List.replicate n (Float.ofNat 1))) := by
  obtain ⟨k, rfl⟩ := Nat.exists_eq_add_one_of_ne_zero (Nat.ne_of_gt hn)
  have hfirst : IsCount (-0.0 + Float.ofNat 1) := .inr ⟨1, by decide, by decide, rfl⟩
  have hrest {x : Float} (hx : IsCount x) :
      IsCount ((List.replicate k (Float.ofNat 1)).foldl (· + ·) x) := by
    induction k generalizing x with
    | zero => exact hx
    | succ k ih => exact ih (Nat.succ_pos k) hx.succ
  exact hrest hfirst

end SweepReport.Double
