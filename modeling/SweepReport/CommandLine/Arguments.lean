import SweepReport.FileTree.Path

/-! The arguments of the program: options, then a command with options of its own. An option takes
the next argument as its value unless one is attached to it. The first argument that does not fit
refuses the rest. -/
namespace SweepReport

inductive Action where
  | plot
  | list
  | print
  deriving DecidableEq, Repr

/-- What the arguments ask for. What was not given is left to the settings. -/
structure Invocation where
  action : Action
  config : Option Path := none
  resultsDir : Option Path := none
  group : Option String := none
  logs : List String := []
  output : Option Path := none
  deriving DecidableEq, Repr

/-- Why nothing is done. -/
inductive Refusal where
  | help
  | misuse
  deriving DecidableEq, Repr

inductive Flag where
  | config
  | resultsDir
  | group
  | log
  | output
  | help
  deriving DecidableEq, Repr

namespace Flag

def long : Flag → String
  | config => "config"
  | resultsDir => "criterion-dir"
  | group => "group"
  | log => "log"
  | output => "output"
  | help => "help"

def short? : Flag → Option UInt8
  | config => some 'c'.toUInt8
  | log => some 'l'.toUInt8
  | output => some 'o'.toUInt8
  | help => some 'h'.toUInt8
  | _ => none

def ofProgram : List Flag := [config, resultsDir, group, log, help]

end Flag

namespace Action

def all : List Action := [plot, list, print]

def name : Action → String
  | plot => "plot"
  | list => "ls"
  | print => "print"

def ofName? (s : OsString) : Option Action := all.find? (s = ·.name)

def flags : Action → List Flag
  | plot => [.output, .help]
  | _ => [.help]

end Action

/-- An argument by its form. -/
inductive Argument where
  | plain
  /-- Two dashes alone: no options follow. -/
  | escape
  | flag (f : Flag) (attached : Option OsString)
  | unknown
  deriving DecidableEq, Repr

namespace Argument

def dash : UInt8 := '-'.toUInt8

def equals : UInt8 := '='.toUInt8

def splitEquals (bs : List UInt8) : List UInt8 × Option (List UInt8) :=
  match bs.dropWhile (· ≠ equals) with
  | _ :: r => (bs.takeWhile (· ≠ equals), some r)
  | [] => (bs, none)

def attachedTo : List UInt8 → Option OsString
  | [] => none
  | b :: r => some ⟨if b = equals then r else b :: r⟩

def ofLong (allowed : List Flag) (bs : List UInt8) : Argument :=
  let (name, attached) := splitEquals bs
  match allowed.find? (⟨name⟩ = OsString.ofText ·.long) with
  | some f => flag f (attached.map OsString.mk)
  | none => unknown

def ofShort (allowed : List Flag) (b : UInt8) (r : List UInt8) : Argument :=
  match allowed.find? (·.short? = some b) with
  | some f => flag f (if f = .help then none else attachedTo r)
  | none => unknown

def ofString (allowed : List Flag) (s : OsString) : Argument :=
  match s.bytes with
  | a :: b :: r =>
    if a ≠ dash then plain
    else if b ≠ dash then ofShort allowed b r
    else if r.isEmpty then escape
    else ofLong allowed r
  | _ => plain

end Argument

namespace Invocation

def once {β : Type} (old : Option β) (v : β) : Except Refusal (Option β) :=
  if old.isSome then .error .misuse else .ok (some v)

def pathOf (s : OsString) : Except Refusal Path := if s.isEmpty then .error .misuse else .ok ⟨s⟩

def textOf (s : OsString) : Except Refusal String := s.text?.elim (.error .misuse) .ok

def give (i : Invocation) (f : Flag) (v : OsString) : Except Refusal Invocation :=
  match f with
  | .config => do return { i with config := ← once i.config (← pathOf v) }
  | .resultsDir => do return { i with resultsDir := ← once i.resultsDir (← pathOf v) }
  | .group => do return { i with group := ← once i.group (← textOf v) }
  | .log => do return { i with logs := i.logs ++ [← textOf v] }
  | .output => do return { i with output := ← once i.output (← pathOf v) }
  | .help => .error .help

/-- Whether an argument can be the value of the option before it: it starts with no dash, unless it
is one. -/
def isValue (s : OsString) : Bool := s = "-" || s.bytes.head? != some Argument.dash

def giveFlag (i : Invocation) (f : Flag) (attached : Option OsString) (rest : List OsString) :
    Except Refusal (Invocation × { r : List OsString // r.length ≤ rest.length }) :=
  if f = .help then .error (if attached.isNone then .help else .misuse)
  else match attached with
    | some v => (·, ⟨rest, Nat.le_refl _⟩) <$> i.give f v
    | none =>
      match rest with
      | v :: rest => if isValue v then (·, ⟨rest, by simp⟩) <$> i.give f v else .error .misuse
      | [] => .error .misuse

def readCommand (i : Invocation) (args : List OsString) : Except Refusal Invocation :=
  match args with
  | [] => .ok i
  | a :: rest =>
    match Argument.ofString i.action.flags a with
    | .escape => if rest.isEmpty then .ok i else .error .misuse
    | .flag f attached =>
      match i.giveFlag f attached rest with
      | .error e => .error e
      | .ok (i, ⟨r, _⟩) => readCommand i r
    | _ => .error .misuse
termination_by args.length

def helpCommand : OsString := "help"

def readHelp : List OsString → Refusal
  | [] => .help
  | [name] => if name = helpCommand ∨ (Action.ofName? name).isSome then .help else .misuse
  | _ => .misuse

/-- The arguments before the command; what the command is shows when it is reached. -/
def readProgram (i : Invocation) (args : List OsString) : Except Refusal Invocation :=
  match args with
  | [] => .error .misuse
  | a :: rest =>
    match Argument.ofString Flag.ofProgram a with
    | .plain =>
      if a = helpCommand then .error (readHelp rest)
      else match Action.ofName? a with
        | some action => readCommand { i with action } rest
        | none => .error .misuse
    | .flag f attached =>
      match i.giveFlag f attached rest with
      | .error e => .error e
      | .ok (i, ⟨r, _⟩) => readProgram i r
    | _ => .error .misuse
termination_by args.length

def ofArguments (args : List OsString) : Except Refusal Invocation := readProgram { action := .list } args

end Invocation
end SweepReport
