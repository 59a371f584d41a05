import SweepReport.Trend.Curve

/-! What is drawn: panels side by side, each with a scatter series and a trend line per thread
count. -/
namespace SweepReport

structure Series (α : Type) where
  /-- The legend entry. -/
  label : String
  points : List (α × α)
  /-- Drawn without a legend entry. -/
  curve : Curve α
  deriving DecidableEq

structure Panel (α : Type) where
  title : String
  xLabel : String
  yLabel : String
  xMax : α
  yMin : α
  yMax : α
  series : List (Series α)
  deriving DecidableEq

structure Figure (α : Type) where
  name : String
  /-- From left to right. -/
  panels : List (Panel α)
  deriving DecidableEq

end SweepReport
