import SweepReport.Figure.PlotData
import SweepReport.Journal
import SweepReport.Process
import SweepReport.Settings

/-! Figures handed to a plot script: the figure goes to a plot data file, then the script runs on
it. -/
namespace SweepReport

inductive WriteFault where
  | folder (path : Path) (cause : IoFault)
  | file (path : Path) (cause : IoFault)
  deriving DecidableEq, Repr

def WriteFault.chain : WriteFault → List String
  | folder path cause => ["Create plot data dir " ++ path.quoted, cause.message]
  | file path cause => ["Write " ++ path.quoted, cause.message]

inductive RunFault where
  | spawn (program : String) (script : Path) (cause : IoFault)
  | exit (script : Path) (status : ExitStatus)
  deriving DecidableEq, Repr

def RunFault.chain : RunFault → List String
  | spawn program script cause =>
    ["Spawn " ++ program ++ " " ++ script.quoted, cause.message]
  | exit script status => ["Plot script " ++ script.quoted ++ " exited with " ++ status.message]

inductive RenderFault where
  | data (figure : String) (cause : WriteFault)
  | run (cause : RunFault)
  deriving DecidableEq, Repr

def RenderFault.chain : RenderFault → List String
  | data figure cause => ("Write plot data for " ++ figure) :: cause.chain
  | run cause => cause.chain

def plotDataPath (dir : Path) (stem : String) : Path := dir / ⟨stem ++ ".json"⟩

/-- Writes a text to the plot data file of a name, in a folder that is made if nothing is there. -/
def storePlotData (text : String) (dir : Path) (stem : String) (t : FileTree) :
    FileTree × Except WriteFault Path :=
  let (t, fault?) := if t.has dir then (t, none) else t.makeFolders dir
  match fault? with
  | some cause => (t, .error (.folder dir cause))
  | none =>
    let path := plotDataPath dir stem
    match t.write path text.toUTF8 with
    | .error cause => (t, .error (.file path cause))
    | .ok t => (t, .ok path)

def plotCommand (program : String) (script : Path) (flags : List (String × String)) : Command :=
  ⟨program, script.raw :: flags.flatMap fun f => [.ofText f.1, .ofText f.2]⟩

def runPlotScript (launch : Launcher) (program : String) (script : Path)
    (flags : List (String × String)) (m : Machine) : Machine × Noted RunFault Unit :=
  let command := plotCommand program script flags
  let events := [⟨.debug, .process, "Running " ++ command.quoted⟩]
  match command.start launch m with
  | .error cause => (m, ⟨.error (.spawn program script cause), events⟩)
  | .ok (status, m) =>
    if status.isSuccess then (m, ⟨.ok (), events⟩)
    else (m, ⟨.error (.exit script status), events⟩)

structure ScriptRenderer where
  interpreter : String
  script : Path
  dataDir : Path
  output : Option Path
  deriving DecidableEq

namespace ScriptRenderer

def ofSettings (s : Settings) : ScriptRenderer :=
  ⟨s.interpreter, s.plotScript, s.plotDataDir, s.output⟩

/-- The flags for the script: where the data is, and where the figure goes. They are texts, so a path that
is none is not given as it is. -/
def flags (r : ScriptRenderer) (data : Path) : List (String × String) :=
  ("--data", data.raw.lossy) :: (r.output.toList.map fun p => ("--filepath", p.raw.lossy))

def render (r : ScriptRenderer) (launch : Launcher) (f : Figure Float) (m : Machine) :
    Machine × Noted RenderFault Unit :=
  match storePlotData f.plotData r.dataDir f.name m.tree with
  | (t, .error cause) => ({ m with tree := t }, .ofExcept (.error (.data f.name cause)))
  | (t, .ok path) =>
    let (m, done) := runPlotScript launch r.interpreter r.script (r.flags path) { m with tree := t }
    let event : Event := ⟨.debug, .plotData, s!"Plot data for {f.name} in {path.quoted}"⟩
    (m, ⟨done.result.mapError .run, event :: done.events⟩)

end ScriptRenderer
end SweepReport
