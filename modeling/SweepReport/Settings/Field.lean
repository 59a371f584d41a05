import SweepReport.Settings

/-! The settings by name. -/
namespace SweepReport

inductive Settings.Field where
  | resultsDir
  | group
  | runtimeDir
  | throughputDir
  | samplesFile
  | fitDegree
  | curveStep
  | interpreter
  | plotScript
  | plotDataDir
  | output
  deriving DecidableEq, Repr

namespace Settings.Field

def all : List Field :=
  [resultsDir, group, runtimeDir, throughputDir, samplesFile, fitDegree, curveStep, interpreter,
   plotScript, plotDataDir, output]

def name : Field → String
  | resultsDir => "criterion_dir"
  | group => "group"
  | runtimeDir => "runtime_dir"
  | throughputDir => "throughput_dir"
  | samplesFile => "raw_file"
  | fitDegree => "fit_degree"
  | curveStep => "curve_step"
  | interpreter => "python"
  | plotScript => "plot_script"
  | plotDataDir => "plot_data_dir"
  | output => "output"

def ofName? (s : String) : Option Field := all.find? (·.name = s)

theorem ofName?_name (f : Field) : ofName? f.name = some f := by cases f <;> rfl

end Settings.Field

/-- How the values of some format are read as those of settings. -/
structure Settings.Values (ν : Type) where
  text? : ν → Option String
  degree? : ν → Option UInt64
  step? : ν → Option Float
  /-- A text, or the value that stands for none. -/
  optionalText? : ν → Option (Option String)

def Settings.give? {ν : Type} (n : Settings.Values ν) (s : Settings) (f : Settings.Field)
    (v : ν) : Option Settings :=
  match f with
  | .resultsDir => (n.text? v).map fun t => { s with resultsDir := .ofText t }
  | .group => (n.text? v).map fun t => { s with group := t }
  | .runtimeDir => (n.text? v).map fun t => { s with runtimeDir := t }
  | .throughputDir => (n.text? v).map fun t => { s with throughputDir := t }
  | .samplesFile => (n.text? v).map fun t => { s with samplesFile := .ofText t }
  | .fitDegree => (n.degree? v).map fun d => { s with fitDegree := d }
  | .curveStep => (n.step? v).map fun x => { s with curveStep := x }
  | .interpreter => (n.text? v).map fun t => { s with interpreter := t }
  | .plotScript => (n.text? v).map fun t => { s with plotScript := .ofText t }
  | .plotDataDir => (n.text? v).map fun t => { s with plotDataDir := .ofText t }
  | .output => (n.optionalText? v).map fun t => { s with output := t.map .ofText }

end SweepReport
