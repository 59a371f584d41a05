/-! The two metrics of a configuration. -/
namespace SweepReport

inductive Metric where
  | runtime
  | throughput
  deriving DecidableEq, Repr

namespace Metric

def all : List Metric := [.runtime, .throughput]

def name : Metric → String
  | runtime => "runtime"
  | throughput => "throughput"

def title : Metric → String
  | runtime => "Runtime"
  | throughput => "Throughput"

def unit : Metric → String
  | runtime => "milliseconds"
  | throughput => "records per millisecond"

end Metric
end SweepReport
