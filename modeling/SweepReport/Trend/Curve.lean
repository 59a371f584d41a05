import SweepReport.Trend

/-! Trend lines: a trend sampled at equal steps, the end left out. -/
namespace SweepReport
variable {α : Type} [Scalar α]

abbrev Curve (α : Type) := List (α × α)

@[inline] def abscissa (start step : α) (i : Nat) : α := start + Scalar.ofNat i * step

@[specialize] def countFrom? (start stop step : α) : Nat → Nat → Option Nat
  | 0, _ => none
  | fuel + 1, i =>
    if Scalar.lt (abscissa start step i) stop then countFrom? start stop step fuel (i + 1) else some i

/-- How many abscissas lie below the end; none if that is all there are, and the walk never ends. -/
@[specialize] def sampleCount? (start stop step : α) : Option Nat :=
  countFrom? start stop step (Scalar.reach start stop step) 0

/-- A step that is not positive leads nowhere. -/
def isStep (step : α) : Bool := Scalar.lt Scalar.zero step

/-- None if the sampling never ends. -/
@[specialize] def Trend.sample? (p : Trend α) (start stop step : α) : Option (Curve α) :=
  if isStep step then
    (sampleCount? start stop step).map fun count => (List.range count).map fun i =>
      let x := abscissa start step i
      (x, p.eval x)
  else some []

end SweepReport
