import Mathlib
import SweepReport.Trend.Fit

/-! Trends in exact arithmetic. Over the rationals nothing is rounded and every number is finite; what
a fit takes for the relative distance of neighbouring numbers may be any number. -/
namespace SweepReport

/-- What a fit calls the relative distance of neighbouring numbers. -/
class Precision where
  epsilon : ℚ

instance exactScalar [Precision] : Scalar ℚ where
  ofNat n := n
  emptySum := 0
  lt a b := decide (a < b)
  le a b := decide (a ≤ b)
  isFinite _ := true
  abs a := |a|
  max := max
  min := min
  epsilon := Precision.epsilon
  reach start stop step := ⌈(stop - start) / step⌉₊ + 1
  same := inferInstance

def pairing (xs ys : List ℚ) : ℚ := (List.zipWith (· * ·) xs ys).sum

section
variable [Precision]

@[simp] theorem zero_exact : (Scalar.zero : ℚ) = 0 := Nat.cast_zero

@[simp] theorem one_exact : (Scalar.one : ℚ) = 1 := Nat.cast_one

@[simp] theorem two_exact : (Scalar.two : ℚ) = 2 := Nat.cast_ofNat

@[simp] theorem sum_exact (xs : List ℚ) : Scalar.sum xs = xs.sum := List.sum_eq_foldl.symm

@[simp] theorem dot_exact (xs ys : List ℚ) : Scalar.dot xs ys = pairing xs ys := sum_exact _

@[simp] theorem lt_exact (a b : ℚ) : Scalar.lt a b = decide (a < b) := rfl

@[simp] theorem le_exact (a b : ℚ) : Scalar.le a b = decide (a ≤ b) := rfl

@[simp] theorem isFinite_exact (a : ℚ) : Scalar.isFinite a = true := rfl

@[simp] theorem isSame_exact (a b : ℚ) : Scalar.isSame a b = decide (a = b) := rfl

theorem recur_exact (t alpha beta prev cur : ℚ) :
    recur t alpha beta prev cur = (t - alpha) * cur - beta * prev := rfl

@[simp] theorem isUsable_exact (norm : ℚ) : isUsable norm = decide (0 < norm) := by
  rw [Bool.eq_iff_iff]
  simp [isUsable]

end

end SweepReport
