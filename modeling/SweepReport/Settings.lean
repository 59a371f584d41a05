import SweepReport.FileTree.Path
import SweepReport.Metric
import SweepReport.Numeral.Decimal

/-! What a report is made from and how. -/
namespace SweepReport

structure Settings where
  /-- The folder of all benchmark results. -/
  resultsDir : Path := ⟨"target/criterion"⟩
  /-- The benchmark group in it, which holds both result roots. -/
  group : String := "engine262"
  runtimeDir : String := "batched analysis times"
  throughputDir : String := "batched analysis throughput"
  /-- The file of samples in each configuration's folder. -/
  samplesFile : Path := ⟨"new/raw.csv"⟩
  fitDegree : UInt64 := 10
  curveStep : Float := 0.01
  interpreter : String := "python3"
  plotScript : Path := ⟨"plots/batched_analysis.py"⟩
  plotDataDir : Path := ⟨"plot_data"⟩
  /-- Where to save the figure; it is shown otherwise. -/
  output : Option Path := none
  deriving DecidableEq

namespace Settings

def groupDir (s : Settings) : Path := s.resultsDir / ⟨s.group⟩

def root (s : Settings) : Metric → Path
  | .runtime => s.groupDir / ⟨s.runtimeDir⟩
  | .throughput => s.groupDir / ⟨s.throughputDir⟩

def roots (s : Settings) : List (Metric × Path) := Metric.all.map fun m => (m, s.root m)

def samplesFileIn (s : Settings) (dir : Path) : Path := dir / s.samplesFile

end Settings
end SweepReport
