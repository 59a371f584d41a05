import SweepReport.Process
import SweepReport.Script.Reader

/-! Scripts run on a machine. Output is kept until the command that prints it is over, then goes to
its file or on. -/
namespace SweepReport.Script

def processId : String := "4242"

structure Shell where
  tree : FileTree
  printed : String
  /-- The script's name, then what it was given. -/
  arguments : List String
  bindings : List (String × String)
  /-- Of the last command. -/
  status : Nat
  ended : Option ExitStatus

namespace Shell

def value (sh : Shell) (name : String) : String :=
  if name = "$" then processId
  else if name = "#" then toString (sh.arguments.length - 1)
  else if name = "?" then toString sh.status
  else if name = "*" then " ".intercalate sh.arguments.tail
  else match name.toNat? with
    | some n => (sh.arguments[n]?).getD ""
    | none => (sh.bindings.lookup name).getD ""

/-- Fields made so far, last first, and the one begun. -/
structure Fields where
  done : List String
  begun : Option String

def Fields.add (f : Fields) (s : String) : Fields := { f with begun := some (f.begun.getD "" ++ s) }

def Fields.close (f : Fields) : Fields := ⟨f.begun.toList ++ f.done, none⟩

def Fields.addAll (f : Fields) : List String → Fields
  | [] => f
  | [s] => f.add s
  | s :: ss => ((f.add s).close).addAll ss

def isSeparator (c : Char) : Bool := c = ' ' || c = '\t' || c = '\n'

def Fields.addDivided (f : Fields) (s : String) : Fields :=
  s.toList.foldl (fun f c => if isSeparator c then f.close else f.add (toString c)) f

def addPiece (sh : Shell) (f : Fields) : Piece → Fields
  | .text s => f.add (String.ofList s)
  | .parameter name quoted =>
    if name = ['@'] then f.addAll sh.arguments.tail
    else
      let v := sh.value (String.ofList name)
      if quoted then f.add v else f.addDivided v

def expand (sh : Shell) (w : Word) : List String :=
  ((w.foldl sh.addPiece ⟨[], none⟩).close).done.reverse

def expandAll (sh : Shell) (ws : List Word) : List String := ws.flatMap sh.expand

def print (sh : Shell) (s : String) : Shell := { sh with printed := sh.printed ++ s, status := 0 }

def withStatus (sh : Shell) (n : Nat) : Shell := { sh with status := n }

def misuse : Nat := 2

def quit (sh : Shell) (s : ExitStatus) : Shell := { sh with ended := some s }

def unescape : List Char → List Char
  | '\\' :: 'n' :: r => '\n' :: unescape r
  | '\\' :: 't' :: r => '\t' :: unescape r
  | '\\' :: '\\' :: r => '\\' :: unescape r
  | c :: r => c :: unescape r
  | [] => []

def formatOnce : List Char → List String → List Char × List String
  | '%' :: '%' :: r, as =>
    let (s, as) := formatOnce r as
    ('%' :: s, as)
  | '%' :: _ :: r, as =>
    let (s, rest) := formatOnce r as.tail
    ((as.headD "").toList ++ s, rest)
  | c :: r, as =>
    let (s, as) := formatOnce r as
    (c :: s, as)
  | [], as => ([], as)

/-- The format is used again while arguments are left. -/
def formatAll (f : List Char) : Nat → List String → List Char
  | 0, _ => []
  | fuel + 1, as =>
    let (s, rest) := formatOnce f as
    if rest.isEmpty || rest.length = as.length then s else s ++ formatAll f fuel rest

def signalNumber? (s : String) : Option Nat :=
  match s.toNat? with
  | some n => some n
  | none => (ExitStatus.signalNames.idxOf? s).map (· + 1)

/-- Signals that end nothing: none, a child's end, going on, urgent data, another window size. -/
def passes (signal : Nat) : Bool := [0, 17, 18, 23, 28].contains signal

def holds (sh : Shell) : List String → Bool
  | ["-n", s] => !s.isEmpty
  | ["-z", s] => s.isEmpty
  | ["-e", s] => sh.tree.has ⟨s⟩
  | ["-d", s] => sh.tree.isFolder ⟨s⟩
  | ["-f", s] => sh.tree.has ⟨s⟩ && !sh.tree.isFolder ⟨s⟩
  | [a, "=", b] => a = b
  | [a, "!=", b] => a ≠ b
  | [s] => !s.isEmpty
  | _ => false

def test (sh : Shell) (as : List String) : Shell := sh.withStatus (if sh.holds as then 0 else 1)

def copy (sh : Shell) (source target : Path) : Shell :=
  let target := if sh.tree.isFolder target then target / ⟨source.fileName⟩ else target
  match sh.tree.fetch source with
  | .ok (.file content) =>
    match sh.tree.write target content with
    | .ok t => { sh with tree := t, status := 0 }
    | .error _ => sh.withStatus 1
  | _ => sh.withStatus 1

def concatenate (sh : Shell) : List String → Shell
  | [] => sh.withStatus 0
  | p :: ps =>
    match sh.tree.readText ⟨p⟩ with
    | .ok s => concatenate (sh.print s) ps
    | .error _ => (concatenate sh ps).withStatus 1

def perform (sh : Shell) : List String → Shell
  | [] => sh.withStatus 0
  | name :: as =>
    if name = "echo" then
      sh.print (String.ofList (unescape (" ".intercalate as).toList) ++ "\n")
    else if name = "printf" then
      sh.print (String.ofList
        (formatAll (unescape (as.headD "").toList) (as.length + 1) as.tail))
    else if name = "true" ∨ name = ":" then sh.withStatus 0
    else if name = "false" then sh.withStatus 1
    else if name = "exit" then
      sh.quit (.code (as.head?.elim sh.status (fun s => s.toNat?.getD misuse) % 256))
    else if name = "kill" then
      match as with
      | [s, p] =>
        match signalNumber? (String.ofList (s.toList.drop 1)) with
        | some n =>
          if p ≠ processId then sh.withStatus 1
          else if passes n then sh.withStatus 0
          else sh.quit (.signal n)
        | none => sh.withStatus 1
      | _ => sh.withStatus 1
    else if name = "cp" then
      match as with
      | [source, target] => sh.copy ⟨source⟩ ⟨target⟩
      | _ => sh.withStatus 1
    else if name = "cat" then sh.concatenate as
    else if name = "test" then sh.test as
    else if name = "[" then
      if as.getLast? = some "]" then sh.test as.dropLast else sh.withStatus 2
    else sh.withStatus 127

/-- Makes the files that output is sent to, the last of which gets it. -/
def openTargets (sh : Shell) : List Redirect → Except Unit (Shell × Option Path)
  | [] => .ok (sh, none)
  | r :: rs =>
    match sh.expand r.target with
    | [name] =>
      match (if r.append then sh.tree.append ⟨name⟩ .empty else sh.tree.write ⟨name⟩ .empty) with
      | .ok t =>
        match openTargets { sh with tree := t } rs with
        | .ok (sh, p) => .ok (sh, some (p.getD ⟨name⟩))
        | .error _ => .error ()
      | .error _ => .error ()
    | _ => .error ()

/-- Runs a command whose output may go to files. A file that cannot be written fails the command
before it runs. -/
def redirected (sh : Shell) (rs : List Redirect) (run : Shell → Shell) : Shell :=
  match openTargets sh rs with
  | .error _ => sh.withStatus 2
  | .ok (sh, none) => run sh
  | .ok (sh, some p) =>
    let before := sh.printed
    let sh := run { sh with printed := "" }
    match sh.tree.append p sh.printed.toUTF8 with
    | .ok t => { sh with tree := t, printed := before }
    | .error _ => { sh with printed := before, status := 1 }

def run : Statement → Shell → Shell
  | .nothing, sh => sh
  | .simple words rs, sh =>
    if sh.ended.isSome then sh else sh.redirected rs fun sh => sh.perform (sh.expandAll words)
  | .sequence a b, sh => run b (run a sh)
  | .both a b, sh =>
    let sh := run a sh
    if sh.status = 0 then run b sh else sh
  | .either a b, sh =>
    let sh := run a sh
    if sh.status = 0 then sh else run b sh
  | .forEach name words body rs, sh =>
    if sh.ended.isSome then sh
    else sh.redirected rs fun sh =>
      (sh.expandAll words).foldl
        (fun sh w =>
          if sh.ended.isSome then sh
          else run body { sh with bindings := (String.ofList name, w) :: sh.bindings })
        sh

end Shell

def unreadable : ExitStatus := .code 2

/-- Runs the script in a file, whose arguments are taken as texts. A folder opens, but holds no commands. -/
def runFile (script : OsString) (arguments : List OsString) (m : Machine) : ExitStatus × Machine :=
  match m.tree.readText ⟨script⟩ with
  | .error .isFolder => (.code 0, m)
  | .error _ => (unreadable, m)
  | .ok s =>
    match read? s with
    | none => (unreadable, m)
    | some c =>
      let sh := Shell.run c ⟨m.tree, m.printed, (script :: arguments).map OsString.lossy, [], 0, none⟩
      (sh.ended.getD (.code sh.status), ⟨sh.tree, sh.printed⟩)

/-- The programs that are known: a shell, and two that only succeed or fail. No file of a tree can be
started, and no folder. -/
def launch : Launcher := fun c m =>
  if c.program = "sh" then
    match c.arguments with
    | [] => .ok (.code 0, m)
    | script :: arguments => .ok (runFile script arguments m)
  else if c.program = "true" then .ok (.code 0, m)
  else if c.program = "false" then .ok (.code 1, m)
  else if c.program.bytes.contains Path.slash then
    match m.tree.fetch ⟨c.program⟩ with
    | .ok _ => .error .denied
    | .error cause => .error cause
  else if c.program = "." ∨ c.program = ".." then .error .denied
  else if FileTree.nameLimit < c.program.size then .error .nameTooLong
  else .error .notFound

end SweepReport.Script
