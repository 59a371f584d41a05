import SweepReport.Pattern.Brackets
import SweepReport.Pattern.Group

/-! Patterns as trees: groups are closed, a repetition has something to repeat, and bars divide
alternatives. -/
namespace SweepReport.Pattern

/-- What has been read of the whole or of a group. -/
structure Stretch where
  /-- Where it starts. -/
  start : Nat
  /-- The alternatives before the last bar, the last first. -/
  branches : List Tree := []
  /-- Where the parts after it start. -/
  first : Nat
  /-- The last first. -/
  parts : List Tree := []

namespace Stretch

def startingAt (place : Nat) : Stretch := { start := place, first := place }

def add (s : Stretch) (t : Tree) : Stretch := { s with parts := t :: s.parts }

def branch (s : Stretch) (last : Nat) : Tree := .joined .sequence ⟨s.first, last⟩ s.parts

def divide (s : Stretch) (place : Nat) : Stretch :=
  { s with branches := s.branch place :: s.branches, first := place + 1, parts := [] }

def tree (s : Stretch) (last : Nat) : Tree :=
  .joined .alternatives ⟨s.start, last⟩ (s.branch last :: s.branches)

end Stretch

structure OpenGroup where
  /-- The place of its parenthesis. -/
  place : Nat
  unicode : Option Bool
  /-- What stands before it, and whether that is verbose. -/
  before : Stretch
  verbose : Bool

structure Reading where
  stretch : Stretch := .startingAt 0
  /-- The innermost first. -/
  groups : List OpenGroup := []
  verbose : Bool := false
  names : Names := []

namespace Reading

def add (s : Reading) (t : Tree) : Reading := { s with stretch := s.stretch.add t }

def openGroup (s : Reading) (place inside : Nat) (fs : Flags) (names : Names) : Reading where
  stretch := .startingAt inside
  groups := ⟨place, fs.state? 'u', s.stretch, s.verbose⟩ :: s.groups
  verbose := (fs.state? 'x').getD s.verbose
  names := names

def setFlags (s : Reading) (fs : Flags) (mark : Mark) : Reading :=
  { s.add (.flags (fs.state? 'u') mark) with verbose := (fs.state? 'x').getD s.verbose }

def closeGroup (s : Reading) (place : Nat) : Except Fault Reading :=
  match s.groups with
  | [] => .error (.of .groupNotOpen place (place + 1))
  | g :: gs =>
    let t : Tree := .join (.group g.unicode) ⟨g.place, place + 1⟩ [s.stretch.tree place]
    .ok { s with stretch := g.before.add t, groups := gs, verbose := g.verbose }

def repeated (s : Reading) (place : Nat) : Except Fault (Tree × Stretch) :=
  match s.stretch.parts with
  | [] | .flags .. :: _ | .empty _ :: _ => .error (.of .nothingToRepeat place place)
  | t :: ts => .ok (t, { s.stretch with parts := ts })

end Reading

def countLimit : Nat := 4294967296

def openCount (m : Mode) (cs : List Char) : Fault :=
  let start := m.place cs - 1
  let digits := (m.visible cs).dropWhile (Text.isBlank ·.2)
  let after := digits.dropWhile (Numeral.isDigit ·.2)
  let rest := after.dropWhile (Text.isBlank ·.2)
  let first := m.placeOf digits
  let last := m.placeOf after
  let value := (digits.takeWhile (Numeral.isDigit ·.2)).foldl
    (fun n d => n * 10 + (d.2.toNat - '0'.toNat)) 0
  if rest.isEmpty then .of .countOpen start m.size
  else if first = last then .of .countMissing first first
  else if countLimit ≤ value then .of .countTooLarge first last
  else .of .countOpen start (m.placeOf rest)

/-- A sign that repeats what stands before it. A question mark after it makes it lazy. -/
def repetition (m : Mode) (s : Reading) (cs : List Char) : Except Fault (Reading × Rest cs) := do
  let (t, before) ← s.repeated (m.place cs - 1)
  let ⟨r, hr⟩ : Rest cs :=
    if cs.head? = some '?' then Rest.tail cs else Rest.all cs
  return ({ s with stretch := before.add (.join .repetition ⟨t.mark.first, m.place r⟩ [t]) }, ⟨r, hr⟩)

def item (m : Mode) (c : Char) (cs : List Char) : Except Fault (Item × Rest cs) :=
  if c = '.' then .ok (.dot, Rest.all cs)
  else if c = '^' || c = '$' then .ok (.anchor, Rest.all cs)
  else setItem m c cs

def step (m : Mode) (s : Reading) (c : Char) (cs : List Char) :
    Except Fault (Reading × Rest cs) := do
  let place := m.place cs - 1
  if c = '(' then
    match ← opening m s.names cs with
    | (.group fs names, r) => return (s.openGroup place (m.place r.1) fs names, r)
    | (.flags fs, r) => return (s.setFlags fs ⟨place, m.place r.1⟩, r)
  else if c = ')' then return (← s.closeGroup place, Rest.all cs)
  else if c = '|' then return ({ s with stretch := s.stretch.divide place }, Rest.all cs)
  else if c = '[' then
    let (o, ⟨r, hr⟩) ← openBrackets m cs
    let (t, ⟨a, ha⟩) ← inBrackets m o [] r
    return (s.add t, ⟨a, Nat.le_trans ha hr⟩)
  else if c = '?' || c = '*' || c = '+' then repetition m s cs
  else if c = '\x7b' then s.repeated place >>= fun _ => throw (openCount m cs)
  else
    let (i, r) ← item m c cs
    return (s.add (.item i ⟨place, m.place r.1⟩), r)

def readFrom (size : Nat) (s : Reading) (cs : List Char) : Except Fault Tree :=
  let m : Mode := ⟨size, s.verbose⟩
  match m.skip cs with
  | ⟨[], _⟩ =>
    match s.groups with
    | [] => .ok (s.stretch.tree size)
    | g :: _ => .error (.of .groupOpen g.place (g.place + 1))
  | ⟨c :: r, hr⟩ =>
    match step m s c r with
    | .error e => .error e
    | .ok (s, ⟨a, ha⟩) =>
      have : a.length < cs.length := Nat.lt_of_le_of_lt ha hr
      readFrom size s a
termination_by cs.length

def read (pattern : List Char) : Except Fault Tree := readFrom pattern.length {} pattern

end SweepReport.Pattern
