import SweepReport.Trend.Fit
import SweepReport.Trend.Curve
import SweepReport.ResultTable

/-! Sweeps: the configurations with one thread count, over their batch sizes. A sweep shows one metric
and has one trend line. -/
namespace SweepReport
variable {α : Type}

structure Sweep (α : Type) where
  threads : ThreadCount
  /-- Batch size and metric. -/
  points : List (UInt64 × α)

namespace Sweep

/-- Neighbours of one thread count join to a sweep. -/
def ofValues : List (Label × α) → List (Sweep α)
  | [] => []
  | (l, v) :: rest =>
    match ofValues rest with
    | [] => [⟨l.threads, [(l.batch, v)]⟩]
    | s :: ss =>
      if s.threads = l.threads then ⟨l.threads, (l.batch, v) :: s.points⟩ :: ss
      else ⟨l.threads, [(l.batch, v)]⟩ :: s :: ss

/-- The sweeps of a table, ordered by thread count and each by batch size, as the table is. -/
def ofTable (t : ResultTable α) (metric : Metric) : List (Sweep α) :=
  ofValues (t.values metric)

variable [Scalar α]

@[specialize] def xs (s : Sweep α) : List α := s.points.map fun p => Scalar.ofWord p.1

def ys (s : Sweep α) : List α := s.points.map Prod.snd

end Sweep

variable [Scalar α]

@[specialize] def maxMetric (sweeps : List (Sweep α)) : α :=
  Scalar.greatest (sweeps.flatMap Sweep.ys)

structure FittedSweep (α : Type) where
  sweep : Sweep α
  curve : Curve α
  notes : List FitNote

/-- The trend line goes from the first point to the last, which is left out. None if its sampling never
ends. -/
@[specialize] def Sweep.fitted? (s : Sweep α) (degree : Nat) (step : α) : Option (FittedSweep α) :=
  let xs := s.xs
  let f := Fit.ofSamples xs s.ys degree
  let curve? := match f.trend, xs.head?, xs.getLast? with
    | some p, some start, some stop => p.sample? start stop step
    | _, _, _ => some []
  curve?.map fun curve => ⟨s, curve, f.notes⟩

@[specialize] def fitSweeps? (sweeps : List (Sweep α)) (degree : Nat) (step : α) :
    Option (List (FittedSweep α)) :=
  sweeps.mapM (·.fitted? degree step)

end SweepReport
