import SweepReport.Problem

/-! A configuration's samples reduced to one number: mean milliseconds an iteration, or mean records
a millisecond. -/
namespace SweepReport
variable {α : Type} [Scalar α]

@[specialize] def mean? (xs : List α) : Option α :=
  if xs.isEmpty then none
  else some (xs.foldl (· + ·) Scalar.zero / Scalar.ofNat xs.length)

@[specialize] def rates (row : Nat) : List (Sample α) → Except Nat (List α)
  | [] => .ok []
  | s :: ss =>
    match s.records with
    | none => .error row
    | some n => (n / s.milliseconds :: ·) <$> rates (row + 1) ss

@[specialize] def measures (metric : Metric) (samples : List (Sample α)) : Except Nat (List α) :=
  match metric with
  | .runtime => .ok (samples.map Sample.milliseconds)
  | .throughput => rates 1 samples

@[specialize] def summarize (samples : List (Sample α)) (metric : Metric) (path : Path) :
    Except Problem α :=
  match measures metric samples with
  | .error row => .error (.malformed path (.noRecords row))
  | .ok values => (mean? values).elim (.error (.noSamples path)) .ok

end SweepReport
