import SweepReport.Summary
import SweepReport.Label.Reading
import SweepReport.ResultTable
import SweepReport.Sample.File
import SweepReport.Settings
import SweepReport.Numeral.Layout

/-! Benchmark results collected from a file tree: every configuration folder of both roots, joined by
the label in its first sample. -/
namespace SweepReport

/-- The folder next to the configurations that holds none. -/
def summaryDir : OsString := "report"

/-- Whether a folder's entry of this name is a configuration folder: the way to it leads to a folder
that is not the summary. -/
def isConfiguration (t : FileTree) (root : Path) (name : OsString) : Bool :=
  t.isFolder (root / ⟨name⟩) && name ≠ summaryDir

def configurationNames (t : FileTree) (root : Path) (entries : List (OsString × Entry)) :
    List OsString :=
  ((entries.map Prod.fst).filter (isConfiguration t root)).mergeSort fun a b => (compare a b).isLE

def configurationDirs (t : FileTree) (root : Path) : Except Problem (List Path) :=
  match t.list root with
  | .error cause => .error (.io root cause)
  | .ok entries => .ok ((configurationNames t root entries).map fun name => root / ⟨name⟩)

def labelOfSamples (samples : List (Sample Float)) (path : Path) : Except Problem Label :=
  match samples with
  | [] => .error (.noSamples path)
  | s :: _ => (Label.ofText s.label).mapError fun u => .invalidLabel path u.text

def resultIn (t : FileTree) (s : Settings) (metric : Metric) (dir : Path) :
    Noted Problem (Label × Float) := do
  let path := s.samplesFileIn dir
  let samples ← readSamples t path
  let label ← .ofExcept (labelOfSamples samples path)
  let value ← .ofExcept (summarize samples metric path)
  .note .debug .results
    s!"{metric.name} of {label.text}: {Numeral.plain value} ({samples.length} samples)"
  return (label, value)

def gatherDirs (t : FileTree) (s : Settings) (metric : Metric) (b : TableBuilder Float) :
    List Path → Noted Problem (TableBuilder Float)
  | [] => pure b
  | dir :: dirs => do
    let (label, value) ← resultIn t s metric dir
    let b ← .ofExcept (b.add label metric value dir)
    gatherDirs t s metric b dirs

def gatherRoots (t : FileTree) (s : Settings) (b : TableBuilder Float) :
    List (Metric × Path) → Noted Problem (TableBuilder Float)
  | [] => pure b
  | (metric, root) :: roots => do
    let dirs ← .ofExcept (configurationDirs t root)
    .note .info .results
      s!"Found {dirs.length} {metric.name} configurations in {root.quoted}"
    let b ← gatherDirs t s metric b dirs
    gatherRoots t s b roots

def gatherTable (t : FileTree) (s : Settings) : Noted Problem (ResultTable Float) := do
  let b ← gatherRoots t s .empty s.roots
  .ofExcept (TableBuilder.toTable b)

structure Listed where
  metric : Metric
  dir : Path
  label : Label
  deriving DecidableEq

def inventoryDir (t : FileTree) (s : Settings) (metric : Metric) (dir : Path) :
    Noted Problem Listed := do
  let path := s.samplesFileIn dir
  let samples ← readSamples t path
  let label ← .ofExcept (labelOfSamples samples path)
  return ⟨metric, dir, label⟩

def inventoryDirs (t : FileTree) (s : Settings) (metric : Metric) :
    List Path → Noted Problem (List Listed)
  | [] => pure []
  | dir :: dirs => do
    let first ← inventoryDir t s metric dir
    let rest ← inventoryDirs t s metric dirs
    return first :: rest

def inventoryRoots (t : FileTree) (s : Settings) :
    List (Metric × Path) → Noted Problem (List Listed)
  | [] => pure []
  | (metric, root) :: roots => do
    let dirs ← .ofExcept (configurationDirs t root)
    let found ← inventoryDirs t s metric dirs
    let rest ← inventoryRoots t s roots
    return found ++ rest

/-- The label of every configuration folder; no sample is summarized. -/
def inventory (t : FileTree) (s : Settings) : Noted Problem (List Listed) :=
  inventoryRoots t s s.roots

end SweepReport
