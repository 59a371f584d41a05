import SweepReport.Scalar

/-! One timed batch of iterations of a benchmark. -/
namespace SweepReport

structure Sample (α : Type) where
  /-- The benchmark's parameter text. -/
  label : String
  /-- Time of the whole batch in nanoseconds. -/
  elapsed : α
  iterations : UInt64
  /-- Records per iteration, where the benchmark counts them. -/
  records : Option α

def nanosPerMilli : Nat := 1000000

@[specialize] def Sample.milliseconds {α : Type} [Scalar α] (s : Sample α) : α :=
  s.elapsed / Scalar.ofWord s.iterations / Scalar.ofNat nanosPerMilli

end SweepReport
