import SweepReport.Trend

/-! The basis polynomials at the sample points. Each is orthogonal to those before it, as far as the
arithmetic is exact, by the choice of the recurrence. -/
namespace SweepReport
variable {α : Type} [Scalar α]
open Scalar (sum dot)

/-- A basis polynomial: its values at the samples, their sum of squares, and the recurrence from
it. -/
structure BasisVector (α : Type) where
  values : List α
  norm : α
  alpha : α
  beta : α

/-- Whether a polynomial with this sum of squares tells the samples apart at all. -/
def isUsable (norm : α) : Bool := Scalar.isFinite norm && !Scalar.le norm Scalar.zero

@[specialize] def alphaOf (ts values : List α) (norm : α) : α :=
  sum (List.zipWith (fun t p => t * p * p) ts values) / norm

@[specialize] def nextValues (alpha beta : α) : List α → List α → List α → List α
  | t :: ts, p :: ps, q :: qs => recur t alpha beta q p :: nextValues alpha beta ts ps qs
  | _, _, _ => []

/-- So many polynomials from the degree `k` on, as long as they are usable, and the degree of the
first that is not. -/
@[specialize] def basisFrom (ts : List α) : Nat → Nat → List α → List α → α →
    List (BasisVector α) × Option Nat
  | 0, _, _, _, _ => ([], none)
  | count + 1, k, prev, cur, prevNorm =>
    let norm := dot cur cur
    if isUsable norm then
      let alpha := alphaOf ts cur norm
      let beta := if k = 0 then Scalar.zero else norm / prevNorm
      let (rest, vanished) :=
        basisFrom ts count (k + 1) cur (nextValues alpha beta ts cur prev) norm
      (⟨cur, norm, alpha, beta⟩ :: rest, vanished)
    else ([], some k)

@[specialize] def basis (ts : List α) (degree : Nat) : List (BasisVector α) × Option Nat :=
  basisFrom ts (degree + 1) 0 (ts.map fun _ => Scalar.zero) (ts.map fun _ => Scalar.one)
    Scalar.one

end SweepReport
