import SweepReport.Trend.Range
import SweepReport.Trend.Refinement

/-! Trends fitted to samples by least squares. The abscissas are mapped to `[-1, 1]`, and the
degree is at most one less than the number of different abscissas. -/
namespace SweepReport
variable {α : Type} [Scalar α]
open Scalar (lt two one greatest)

/-- What a fit has to say besides its result. -/
inductive FitNote where
  /-- The basis polynomial of this degree is zero on the samples, or not finite. -/
  | vanished (degree : Nat)
  | converged (degree passes : Nat)
  deriving DecidableEq, Repr

def FitNote.message : FitNote → String
  | .vanished degree =>
    s!"Basis of degree {degree} vanishes on the samples, stopping at {degree - 1}"
  | .converged degree passes => s!"Degree {degree} fit converged after {passes} passes"

structure Fit (α : Type) where
  trend : Option (Trend α)
  notes : List FitNote

@[inline] def midpoint (least greatest : α) : α := (least + greatest) / two

@[inline] def halfWidth (least greatest : α) : α :=
  if lt least greatest then (greatest - least) / two else one

@[specialize] def usedDegree (xs : List α) (degree : Nat) : Nat :=
  min degree ((distinct xs).length - 1)

@[specialize] def unweighted (vs : List (BasisVector α)) : List (Weighted α) :=
  vs.map fun v => ⟨v, greatest (v.values.map Scalar.abs), Scalar.zero⟩

def termOf (w : Weighted α) : Term α := ⟨w.weight, w.vector.alpha, w.vector.beta⟩

/-- A change below this does not show in the samples. -/
@[specialize] def toleranceFor (ys : List α) : α := Scalar.epsilon * greatest (ys.map Scalar.abs)

@[specialize] def Fit.ofRange (offset scale : α) (xs ys : List α) (degree : Nat) : Fit α :=
  let (vs, vanished) := basis (xs.map fun x => (x - offset) / scale) (usedDegree xs degree)
  let notes := vanished.toList.map FitNote.vanished
  if vs.isEmpty then ⟨none, notes⟩
  else match refine (toleranceFor ys) passLimit 0 (unweighted vs) ys with
    | none => ⟨none, notes⟩
    | some (ws, passes) =>
      ⟨some ⟨ws.map termOf, offset, scale⟩,
       notes ++ passes.toList.map (FitNote.converged (vs.length - 1))⟩

@[specialize] def Fit.ofSamples (xs ys : List α) (degree : Nat) : Fit α :=
  if xs.length ≠ ys.length then ⟨none, []⟩
  else match range? xs with
    | none => ⟨none, []⟩
    | some (least, greatest) =>
      Fit.ofRange (midpoint least greatest) (halfWidth least greatest) xs ys degree

/-- No trend without samples, nor where a weight is not finite. -/
@[specialize] def Trend.fit? (xs ys : List α) (degree : Nat) : Option (Trend α) :=
  (Fit.ofSamples xs ys degree).trend

end SweepReport
