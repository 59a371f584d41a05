import SweepReport.FileTree.Edit

/-! Programs that are started and waited for. What a program does is its launcher's to say. -/
namespace SweepReport

/-- What a program acts on: the files, and the text it prints. -/
structure Machine where
  tree : FileTree
  printed : String

structure Command where
  program : OsString
  arguments : List OsString
  deriving DecidableEq, Repr

namespace Command

def words (c : Command) : List OsString := c.program :: c.arguments

/-- A word with a NUL is not kept. -/
def quotedWord (s : OsString) : String := OsString.quoted (if s.hasNul then "<string-with-nul>" else s)

def quoted (c : Command) : String := " ".intercalate (c.words.map quotedWord)

end Command

inductive ExitStatus where
  | code (n : Nat)
  | signal (n : Nat)
  deriving DecidableEq, Repr

namespace ExitStatus

def signalNames : List String :=
  ["HUP", "INT", "QUIT", "ILL", "TRAP", "ABRT", "BUS", "FPE", "KILL", "USR1", "SEGV", "USR2",
   "PIPE", "ALRM", "TERM", "STKFLT", "CHLD", "CONT", "STOP", "TSTP", "TTIN", "TTOU", "URG", "XCPU",
   "XFSZ", "VTALRM", "PROF", "WINCH", "IO", "PWR", "SYS"]

def signalName? (n : Nat) : Option String := if n = 0 then none else signalNames[n - 1]?

def isSuccess : ExitStatus → Bool
  | code n => n = 0
  | signal _ => false

def message : ExitStatus → String
  | code n => s!"exit status: {n}"
  | signal n =>
    s!"signal: {n}" ++ (signalName? n).elim "" fun name => " (SIG" ++ name ++ ")"

end ExitStatus

/-- Either the program does not start, or it ends and leaves the machine changed. -/
abbrev Launcher := Command → Machine → Except IoFault (ExitStatus × Machine)

/-- Starts a command; one with a NUL in a word is not handed to the launcher. -/
def Command.start (c : Command) (launch : Launcher) : Machine → Except IoFault (ExitStatus × Machine) :=
  if c.words.any OsString.hasNul then fun _ => .error .nulInWord else launch c

end SweepReport
