import SweepReport.Figure
import SweepReport.Sweep

/-! The figure of a table of metrics: a panel for each metric, both as wide as the largest batch. A
sketch holds the fitted sweeps that the panels are drawn from. -/
namespace SweepReport
variable {α : Type} [Scalar α]

def reportName : String := "batched-analysis"

def batchAxis : String := "files in batch"

structure PanelSketch (α : Type) where
  metric : Metric
  xMax : α
  maxMetric : α
  fitted : List (FittedSweep α)

abbrev Sketch (α : Type) := List (PanelSketch α)

@[specialize] def sketchPanel? (t : ResultTable α) (maxBatch : UInt64) (degree : Nat) (step : α)
    (metric : Metric) : Option (PanelSketch α) :=
  let sweeps := Sweep.ofTable t metric
  (fitSweeps? sweeps degree step).map fun fitted =>
    ⟨metric, Scalar.ofWord maxBatch, maxMetric sweeps, fitted⟩

/-- Why there is no figure: the table is empty, or the sampling of a trend line never ends. -/
inductive FigureFault where
  | empty
  | endless
  deriving DecidableEq, Repr

def FigureFault.message? : FigureFault → Option String
  | empty => some "No configurations to plot"
  | endless => none

@[specialize] def sketch (t : ResultTable α) (degree : Nat) (step : α) :
    Except FigureFault (Sketch α) :=
  match ResultTable.maxBatch? t with
  | none => .error .empty
  | some maxBatch =>
    (Metric.all.mapM (sketchPanel? t maxBatch degree step)).elim (.error .endless) .ok

namespace FittedSweep

@[specialize] def series (f : FittedSweep α) : Series α :=
  { label := f.sweep.threads.text
    points := f.sweep.points.map fun p => (Scalar.ofWord p.1, p.2)
    curve := f.curve }

end FittedSweep

/-- The vertical extent: from zero or a lower point of a curve up to the greatest metric or a higher
one. -/
@[specialize] def verticalExtent (series : List (Series α)) (maxMetric : α) : α × α :=
  (series.flatMap fun s => s.curve.map Prod.snd).foldl
    (fun r y => (Scalar.min r.1 y, Scalar.max r.2 y)) (Scalar.zero, maxMetric)

@[specialize] def PanelSketch.panel (s : PanelSketch α) : Panel α :=
  let series := s.fitted.map FittedSweep.series
  let range := verticalExtent series s.maxMetric
  { title := s.metric.title
    xLabel := batchAxis
    yLabel := s.metric.unit
    xMax := s.xMax
    yMin := range.1
    yMax := range.2
    series }

@[specialize] def Sketch.figure (s : Sketch α) : Figure α := ⟨reportName, s.map PanelSketch.panel⟩

def Sketch.notes (s : Sketch α) : List FitNote :=
  s.flatMap fun p => p.fitted.flatMap FittedSweep.notes

@[specialize] def Figure.ofTable (t : ResultTable α) (degree : Nat) (step : α) :
    Except FigureFault (Figure α) :=
  (sketch t degree step).map Sketch.figure

end SweepReport
