import SweepReport.Report
import SweepReport.CommandLine.Arguments
import SweepReport.CommandLine.Layout
import SweepReport.Journal.Filter
import SweepReport.ScriptRenderer
import SweepReport.Settings.Yaml

/-! The program: settings are read, the arguments override them, and the command runs on what comes
out. -/
namespace SweepReport

def usualConfig : Path := ⟨"report.yaml"⟩

inductive LoadFault where
  | read (path : Path) (cause : IoFault)
  | parse (path : Path) (cause : Yaml.Fault)
  deriving DecidableEq, Repr

/-- The message and its causes. There is none where the program breaks off. -/
def LoadFault.chain? : LoadFault → Option (List String)
  | read path cause => some ["Read settings " ++ path.quoted, cause.message]
  | parse path .malformed => some ["Parse settings " ++ path.quoted]
  | parse _ .crowded => none

def settingsIn (t : FileTree) (p : Path) : Except LoadFault Settings :=
  match t.readText p with
  | .error cause => .error (.read p cause)
  | .ok text => (Settings.ofYaml text).mapError (.parse p)

def settingsFor (t : FileTree) (config : Option Path) : Noted LoadFault Settings :=
  match config with
  | some p => .ofExcept (settingsIn t p)
  | none =>
    if t.has usualConfig then .ofExcept (settingsIn t usualConfig)
    else do
      .note .debug .command ("No " ++ usualConfig.raw.lossy ++ ", using default settings")
      return {}

def Invocation.override (i : Invocation) (s : Settings) : Settings :=
  { s with
    resultsDir := i.resultsDir.getD s.resultsDir
    group := i.group.getD s.group
    output := i.output.or s.output }

inductive CommandFault where
  | settings (cause : LoadFault)
  | results (cause : Problem)
  | report (cause : Failure RenderFault)

def CommandFault.chain? : CommandFault → Option (List String)
  | settings cause => cause.chain?
  | results cause => some cause.chain
  | report cause => cause.chain? RenderFault.chain

def Machine.print (m : Machine) (ls : List String) : Machine :=
  { m with printed := m.printed ++ linesText ls }

def printing (m : Machine) (x : Noted CommandFault (List String)) :
    Machine × Noted CommandFault Unit :=
  match x.result with
  | .error e => (m, ⟨.error e, x.events⟩)
  | .ok ls => (m.print ls, ⟨.ok (), x.events⟩)

def perform (launch : Launcher) (action : Action) (s : Settings) (m : Machine) :
    Machine × Noted CommandFault Unit :=
  match action with
  | .plot =>
    let (m, done) := drawReport m.tree s (fun f m => (ScriptRenderer.ofSettings s).render launch f m) m
    (m, done.mapError .report)
  | .list =>
    printing m ((·.map Listed.line) <$> (inventory m.tree s).mapError .results)
  | .print => printing m (tableLines <$> (reportTable m.tree s).mapError .report)

def invoke (launch : Launcher) (i : Invocation) (m : Machine) :
    Machine × Noted CommandFault Unit :=
  let loaded := settingsFor m.tree i.config
  match loaded.result with
  | .error e => (m, ⟨.error (.settings e), loaded.events⟩)
  | .ok s =>
    let (m, done) := perform launch i.action (i.override s) m
    (m, ⟨done.result, loaded.events ++ done.events⟩)

structure Outcome where
  code : Nat
  machine : Machine
  /-- The failure and its causes; none of a success, of a misuse, or where the run breaks off. -/
  failure : Option (List String)
  /-- The events that the filter keeps. -/
  events : List Event

def usage : String :=
  "Usage: [-c FILE] [--criterion-dir DIR] [--group NAME] [-l DIRECTIVE]... plot [-o FILE] | ls | print"

/-- The file that keeps the log; it is there as soon as the arguments are read. -/
def logFile : Path := ⟨"log.log"⟩

def startLog (m : Machine) : Except IoFault Machine :=
  (m.tree.append logFile .empty).map fun t => { m with tree := t }

def brokenOff : Nat := 101

def failureCode (failure : Option (List String)) : Nat := if failure.isNone then brokenOff else 1

def Outcome.ofCommand? (m : Machine) (events : List Event) :
    Except CommandFault Unit → Option Outcome
  | .error (.report (.composing .endless)) => none
  | .error e => some ⟨failureCode e.chain?, m, e.chain?, events⟩
  | .ok () => some ⟨0, m, none, events⟩

/-- Runs the program with a log level and arguments. A run that never ends has no outcome. -/
def runProgram (launch : Launcher) (level : Threshold) (args : List OsString) (m : Machine) :
    Option Outcome :=
  match Invocation.ofArguments args with
  | .error .help => some ⟨0, m.print [usage], none, []⟩
  | .error .misuse => some ⟨2, m, none, []⟩
  | .ok i =>
    match startLog m with
    | .error _ => some ⟨failureCode none, m, none, []⟩
    | .ok m =>
      match filterDirectives level i.logs with
      | .error e => some ⟨failureCode e.chain?, m, e.chain?, []⟩
      | .ok ds =>
        let (m, done) := invoke launch i m
        Outcome.ofCommand? m (done.events.filter (Filter.keeps (Filter.build ds))) done.result

end SweepReport
