import SweepReport.CommandLine
import SweepReport.Script.Shell

/-! The program at a terminal. Standard input names the files and folders that the run may see, one
a line and folders with a slash at the end; what the run changes is written back. -/
open SweepReport

partial def inputLines (input : IO.FS.Stream) (done : List String) : IO (List String) := do
  let line ← input.getLine
  if line.isEmpty then return done.reverse
  else inputLines input (String.ofList (line.toList.filter (· ≠ '\n')) :: done)

def loadEntry (t : FileTree) (name : String) : IO FileTree := do
  let p : Path := ⟨name⟩
  if p.endsInSlash then return (t.makeFolders p).1
  else
    let content ← IO.FS.readBinFile name
    let t := (t.makeWay t.here p.parts.dropLast).1
    return (t.write p content).toOption.getD t

def placeText (t : FileTree) (place : Place) : String :=
  "/".intercalate ((place.names.reverse.drop t.here.depth).map OsString.lossy)

/-- Writes an entry that is new or not what it was. -/
def saveEntry (before after : FileTree) (place : Place) (e : Entry) : IO Unit := do
  if !after.here.isAbove place then return
  match e, before.at? place with
  | .folder, some .folder => return
  | .folder, _ => IO.FS.createDirAll (placeText after place)
  | .file content, some (.file old) =>
    if content.data != old.data then IO.FS.writeBinFile (placeText after place) content
  | .file content, _ => IO.FS.writeBinFile (placeText after place) content

/-- The level that the environment sets for the modules, or else that of warnings. -/
def logLevel : IO (Except DirectiveFault Threshold) := do
  let given ← IO.getEnv "RUST_LOG"
  return (Directive.ofText ("common=" ++ given.getD "warn")).map Directive.threshold

def report (failure : Option (List String)) : IO Unit :=
  match failure with
  | some chain => IO.eprintln (failureText chain)
  | none => pure ()

def finish (before : FileTree) (o : Outcome) : IO UInt32 := do
  let after := o.machine.tree
  for (place, e) in after.entries do
    saveEntry before after place e
  for e in o.events do
    IO.println (e.level.name ++ " " ++ e.source.name ++ ": " ++ e.shown)
  IO.print o.machine.printed
  if o.code = 2 then IO.eprintln usage
  report o.failure
  return o.code.toUInt32

def main (args : List String) : IO UInt32 := do
  let names ← inputLines (← IO.getStdin) []
  let before ← names.foldlM loadEntry FileTree.start
  match ← logLevel with
  | .error e =>
    report e.chain?
    return (failureCode e.chain?).toUInt32
  | .ok level =>
    match runProgram Script.launch level (args.map .ofText) ⟨before, ""⟩ with
    | some o => finish before o
    | none =>
      IO.eprintln "The sampling of a trend line never ends"
      return brokenOff.toUInt32
