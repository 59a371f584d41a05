import SweepReport.Yaml.Scalar

/-! Scalars of whole lines. A header says how line ends count and may say how far in the lines are;
else the first line that has text tells it. -/
namespace SweepReport.Yaml

/-- What becomes of the line ends after the last line with text. -/
inductive Chomping where
  | strip
  | clip
  | keep
  deriving DecidableEq, Repr

structure BlockHeader where
  chomping : Chomping := .clip
  /-- How much further in than the mapping the lines are. -/
  increment : Option Nat := none
  deriving DecidableEq, Repr

def chomping? : List Char → Option (Chomping × List Char)
  | '+' :: r => some (.keep, r)
  | '-' :: r => some (.strip, r)
  | _ => none

def increment? : List Char → Option (Option Nat × List Char)
  | [] => some (none, [])
  | c :: r =>
    if c.isDigit then (if c = '0' then none else some (some (c.toNat - '0'.toNat), r))
    else some (none, c :: r)

def blockHeader? (cs : List Char) : Option (BlockHeader × List Char) :=
  match chomping? cs with
  | some (chomping, r) => (increment? r).map fun (increment, r) => (⟨chomping, increment⟩, r)
  | none =>
    (increment? cs).map fun (increment, r) =>
      match increment, chomping? r with
      | some _, some (chomping, r) => (⟨chomping, increment⟩, r)
      | _, _ => (⟨.clip, increment⟩, r)

def idleLine? (cs : List Char) : Option (List Char) :=
  match skipGap cs with
  | [] => some []
  | c :: r =>
    if c = '#' then some ((r.dropWhile (!isBreak ·)).drop 1)
    else if isBreak c then some r
    else none

/-- The widest run of spaces before the first text, at which the lines start; a tab there is
refused. -/
def widestLead? : Nat → Nat → List Char → Option Nat
  | _, widest, [] => some widest
  | column, widest, c :: r =>
    if c = ' ' then widestLead? (column + 1) (max widest (column + 1)) r
    else if isBreak c then widestLead? 0 widest r
    else if c = '\t' then none
    else some widest

/-- Where in a block scalar the next character stands. -/
inductive BlockPlace where
  /-- After so many spaces of a line's lead. -/
  | lead (column : Nat)
  | line
  deriving DecidableEq, Repr

structure BlockText where
  buffer : Buffer := {}
  /-- The end of the last line with text. -/
  lineEnd : Option Char := none
  /-- The ends of the empty lines after it, the last first. -/
  emptyEnds : List Char := []
  /-- Whether the last line with text starts with a gap. -/
  indented : Bool := false

namespace BlockText

def push (b : BlockText) (c : Char) : BlockText := { b with buffer := b.buffer.push c }

/-- A line with text begins. Where lines are folded, the end of the line before is a space or
nothing, unless one of the two lines starts with a gap. -/
def beginLine (b : BlockText) (folded : Bool) (c : Char) : Except Fault BlockText := do
  let folds := folded && b.lineEnd = some '\n' && !b.indented && !isGap c
  let buffer ←
    if !folds then b.buffer.join (b.emptyEnds ++ b.lineEnd.toList)
    else if b.emptyEnds.isEmpty then .ok (b.buffer.push ' ')
    else b.buffer.join b.emptyEnds
  return { buffer := buffer.push c, indented := isGap c }

def chomped (b : BlockText) : Chomping → Except Fault Buffer
  | .strip => .ok b.buffer
  | .clip => b.buffer.join b.lineEnd.toList
  | .keep => b.buffer.join (b.emptyEnds ++ b.lineEnd.toList)

end BlockText

def blockLines (folded : Bool) (indent : Nat) :
    Position → BlockPlace → BlockText → List Char → Except Fault (BlockText × Position × List Char)
  | p, _, b, [] => .ok (b, p, [])
  | p, .line, b, c :: r =>
    if isBreak c then
      blockLines folded indent p.newLine (.lead 0) { b with lineEnd := some c, emptyEnds := [] } r
    else blockLines folded indent p.next .line (b.push c) r
  | p, .lead column, b, c :: r =>
    if isBreak c then
      blockLines folded indent p.newLine (.lead 0) { b with emptyEnds := c :: b.emptyEnds } r
    else if column < indent then
      if c = ' ' then blockLines folded indent p.next (.lead (column + 1)) b r
      else if c = '\t' then .error .malformed
      else .ok (b, p, c :: r)
    else do blockLines folded indent p.next .line (← b.beginLine folded c) r

/-- Where the lines start: as the header says, or else at the widest lead, but further in than the
mapping. -/
def blockIndent? (h : BlockHeader) (mapping : Option Nat) (lines : List Char) : Option Nat :=
  match h.increment with
  | some n => some (mapping.getD 0 + n)
  | none => (widestLead? 0 0 lines).map fun n => max n (max 1 (mapping.elim 0 (· + 1)))

def block (folded : Bool) (mapping : Option Nat) (p : Position) (cs : List Char) :
    Except Fault Read := do
  let (h, r) ← orMalformed (blockHeader? cs)
  let lines ← orMalformed (idleLine? r)
  let indent ← orMalformed (blockIndent? h mapping lines)
  let (b, p, rest) ← blockLines folded indent p.newLine (.lead 0) {} lines
  return ⟨(← b.chomped h.chomping).text, false, p, rest⟩

end SweepReport.Yaml
