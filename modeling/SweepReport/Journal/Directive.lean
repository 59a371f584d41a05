import SweepReport.Journal
import SweepReport.Numeral.Decimal
import SweepReport.Pattern

/-! Directives that say which events are kept: a level, a target, or a target and a level. A directive
may also name a span and fields, in brackets after the target; a field may have a value. -/
namespace SweepReport

inductive DirectiveFault where
  | invalid
  | level
  | value (pattern : List Char) (cause : Pattern.Refusal)
  /-- A part would start or end within a character. -/
  | withinCharacter
  deriving DecidableEq, Repr

namespace DirectiveFault

def levelMessage : String :=
  "error parsing level filter: expected one of \"off\", \"error\", \"warn\", \"info\", "
    ++ "\"debug\", \"trace\", or a number 0-5"

/-- The message and its causes; a level that cannot be read is its own cause. There is none where the
program breaks off. -/
def chain? : DirectiveFault → Option (List String)
  | invalid => some ["invalid filter directive"]
  | level => some [levelMessage, levelMessage]
  | value pattern cause =>
    let causes := cause.chain pattern
    some (("invalid field filter: " ++ causes.headD "") :: causes)
  | withinCharacter => none

end DirectiveFault

/-- How grave an event has to be; zero keeps none. -/
abbrev Threshold := Nat

namespace Threshold

def names : List String := ["off", "error", "warn", "info", "debug", "trace"]

def everything : Threshold := 5

def ofText? (s : String) : Option Threshold :=
  match Numeral.word? s with
  | some n => if n.toNat ≤ everything then some n.toNat else none
  | none =>
    if s.isEmpty then some Level.error.rank else names.idxOf? (String.ofList (s.toList.map Char.toLower))

def nameOf (t : Threshold) : String := (names[t]?).getD ""

def keeps (t : Threshold) (l : Level) : Bool := l.rank ≤ t

end Threshold

structure Directive where
  /-- None stands for all targets. -/
  target : Option String
  span : Option String
  fields : List String
  threshold : Threshold
  deriving DecidableEq, Repr

def dropBytes? : Nat → List Char → Option (List Char)
  | 0, cs => some cs
  | _, [] => none
  | n, c :: cs => if c.utf8Size ≤ n then dropBytes? (n - c.utf8Size) cs else none

def takeBytes? : Nat → List Char → Option (List Char)
  | 0, _ => some []
  | _, [] => none
  | n, c :: cs => if c.utf8Size ≤ n then (c :: ·) <$> takeBytes? (n - c.utf8Size) cs else none

namespace Directive

def blank : Directive := ⟨none, none, [], Threshold.everything⟩

/-- What is being read, and after how many bytes it started. -/
inductive State where
  | start
  | levelOrTarget (first : Nat)
  | span (first : Nat)
  | field (first : Nat)
  | fields
  | afterSpan
  | level (first : Nat)
  | complete
  deriving DecidableEq, Repr

def startsDirective (c : Char) : Bool := c = '-' || c = ':' || c = '_' || Text.isAlphanumeric c

def part (text : List Char) (first last : Nat) : Except DirectiveFault String :=
  match dropBytes? first text >>= takeBytes? (last - first) with
  | some cs => .ok (String.ofList cs)
  | none => .error .withinCharacter

def partFrom (text : List Char) (first : Nat) : Except DirectiveFault String :=
  match dropBytes? first text with
  | some cs => .ok (String.ofList cs)
  | none => .error .withinCharacter

/-- A text that is a level is one; another is a target whose events are all kept. -/
def levelOrTarget (d : Directive) (s : String) : Directive :=
  match Threshold.ofText? s with
  | some t => { d with threshold := t, target := none }
  | none => { d with threshold := Threshold.everything, target := some s }

def withLevel (d : Directive) (s : String) : Except DirectiveFault Directive :=
  if s.isEmpty then .ok { d with threshold := Threshold.everything }
  else match Threshold.ofText? s with
    | some t => .ok { d with threshold := t }
    | none => .error .level

def checkValue (cs : List Char) : Except DirectiveFault Unit :=
  if cs = "true".toList || cs = "false".toList || (Numeral.readFloat cs).isOk then .ok ()
  else match Pattern.refusal? cs with
    | none => .ok ()
    | some e => .error (.value cs e)

def withField (d : Directive) (s : String) : Except DirectiveFault Directive :=
  if s.isEmpty then .error .invalid
  else do
    if let _ :: value :: _ := s.toList.splitOn '=' then checkValue value
    return { d with fields := d.fields ++ [s] }

/-- Reads a character that stands after so many bytes. The parts are cut from the whole text. -/
def step (text : List Char) (d : Directive) (place : Nat) (c : Char) :
    State → Except DirectiveFault (Directive × State)
  | .start =>
    if c = '[' then .ok (d, .span (place + 1))
    else if startsDirective c then .ok (d, .levelOrTarget place)
    else .error .invalid
  | .levelOrTarget first =>
    if c = '=' then
      (part text first place).map fun s => ({ d with target := some s }, .level (place + 1))
    else if c = '[' then
      (part text first place).map fun s => ({ d with target := some s }, .span (place + 1))
    else if c = ',' then (partFrom text first).map fun s => (d.levelOrTarget s, .complete)
    else .ok (d, .levelOrTarget first)
  | .span first =>
    if c = ']' then (part text first place).map fun s => ({ d with span := some s }, .afterSpan)
    else if c = '\x7b' then
      (part text first place).map fun s =>
        ({ d with span := if s.isEmpty then none else some s }, .field (place + 1))
    else .ok (d, .span first)
  | .field first =>
    if c = '\x7d' then do return (← d.withField (← part text first place), .fields)
    else if c = ',' then do return (← d.withField (← part text first place), .field (place + 1))
    else .ok (d, .field first)
  | .fields => if c = ']' then .ok (d, .afterSpan) else .error .invalid
  | .afterSpan => if c = '=' then .ok (d, .level (place + 1)) else .error .invalid
  | .level first =>
    if c = ',' then do return (← d.withLevel (← part text first place), .complete)
    else .ok (d, .level first)
  | .complete => .error .invalid

def finish (text : List Char) (d : Directive) : State → Except DirectiveFault Directive
  | .levelOrTarget first => (partFrom text first).map d.levelOrTarget
  | .level first => partFrom text first >>= d.withLevel
  | .afterSpan => .ok d
  | .complete => .ok d
  | _ => .error .invalid

def run (text : List Char) (d : Directive) (place : Nat) (s : State) :
    List Char → Except DirectiveFault Directive
  | [] => d.finish text s
  | c :: cs =>
    match d.step text place c s with
    | .error e => .error e
    | .ok (d, s) => run text d (place + c.utf8Size) s cs

/-- Blanks around a directive are not read, but its parts are counted from the start of the text with
them. -/
def ofText (s : String) : Except DirectiveFault Directive :=
  run s.toList blank 0 .start (Text.trim s.toList)

def forTarget (target : String) (t : Threshold) : Directive := ⟨some target, none, [], t⟩

end Directive
end SweepReport
