import SweepReport.Trend.Basis

/-! Weights by repeated projection. A step takes from the residual its part along one basis vector;
a pass does so for each vector in turn; passes go on until none changes anything that shows. -/
namespace SweepReport
variable {α : Type} [Scalar α]
open Scalar (dot)

/-- A basis vector with the weight it has so far and the size of its largest value. -/
structure Weighted (α : Type) where
  vector : BasisVector α
  peak : α
  weight : α

@[inline] def component (residual : List α) (v : BasisVector α) : α :=
  dot residual v.values / v.norm

@[specialize] def takeOff (c : α) (residual values : List α) : List α :=
  List.zipWith (fun r v => r - c * v) residual values

/-- The state of a pass: the residual, and the largest change made so far. -/
structure Pass (α : Type) where
  residual : List α
  change : α

@[specialize] def project (p : Pass α) (w : Weighted α) : Weighted α × Pass α :=
  let c := component p.residual w.vector
  ({ w with weight := w.weight + c },
   ⟨takeOff c p.residual w.vector.values, Scalar.max p.change (Scalar.abs c * w.peak)⟩)

@[specialize] def passOver : Pass α → List (Weighted α) → List (Weighted α) × Pass α
  | p, [] => ([], p)
  | p, w :: ws =>
    let (w, p) := project p w
    let (ws, p) := passOver p ws
    (w :: ws, p)

/-- The weights after the passes, and how many it took until one changed no more than the
tolerance. A change that is not finite leaves no weights. -/
@[specialize] def refine (tolerance : α) : Nat → Nat → List (Weighted α) → List α →
    Option (List (Weighted α) × Option Nat)
  | 0, _, ws, _ => some (ws, none)
  | passes + 1, done, ws, residual =>
    let (ws, p) := passOver ⟨residual, Scalar.zero⟩ ws
    if !Scalar.isFinite p.change then none
    else if Scalar.le p.change tolerance then some (ws, some (done + 1))
    else refine tolerance passes (done + 1) ws p.residual

def passLimit : Nat := 16

end SweepReport
