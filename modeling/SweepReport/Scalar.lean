/-! The arithmetic that measurements are computed with. The report runs on doubles; its formulas
are stated over any numbers with these operations. -/
namespace SweepReport

class Scalar (α : Type) extends Add α, Sub α, Mul α, Div α where
  /-- A count as a number, rounded where it has no exact form. -/
  ofNat : Nat → α
  /-- The sum of nothing, to which sums add from the left. -/
  emptySum : α
  lt : α → α → Bool
  le : α → α → Bool
  isFinite : α → Bool
  abs : α → α
  /-- The larger number; of two equal ones, or beside one that is no number, the first that is. -/
  max : α → α → α
  /-- The smaller number, with the same choice. -/
  min : α → α → α
  /-- The relative distance of neighbouring numbers. -/
  epsilon : α
  /-- How many indices there are for a walk from the first number to the second by the third. A walk that
  is below the end at each of them never ends. -/
  reach : α → α → α → Nat
  same : DecidableEq α

namespace Scalar
variable {α : Type} [Scalar α]

/-- Whether both are one and the same number; unlike `==`, this holds of no two zeros of unlike sign. -/
def isSame (x y : α) : Bool := @decide (x = y) (same x y)

def zero : α := ofNat 0
def one : α := ofNat 1
def two : α := ofNat 2

def ofWord (n : UInt64) : α := ofNat n.toNat

@[specialize] def sum (xs : List α) : α := xs.foldl (· + ·) emptySum

@[specialize] def dot (xs ys : List α) : α := sum (List.zipWith (· * ·) xs ys)

@[specialize] def greatest (xs : List α) : α := xs.foldl max zero

end Scalar

/-- The indices of a curve are 64-bit words. -/
instance : Scalar Float where
  ofNat := Float.ofNat
  emptySum := -0.0
  lt a b := a < b
  le a b := a ≤ b
  isFinite := Float.isFinite
  abs := Float.abs
  max a b := if a.isNaN then b else if a < b then b else a
  min a b := if a.isNaN then b else if b < a then b else a
  epsilon := Float.ofBits 0x3cb0000000000000
  reach _ _ _ := UInt64.size
  same := inferInstance

end SweepReport
