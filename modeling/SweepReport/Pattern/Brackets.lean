import SweepReport.Pattern.Escape

/-! Sets of characters in brackets: single characters, ranges, named sets, sets within the set, and
operations on sets. -/
namespace SweepReport.Pattern

/-- A set whose closing bracket is still to come. -/
structure OpenSet where
  /-- From its bracket up to its first member. -/
  opening : Mark
  negated : Bool
  /-- What stands before the last operator. -/
  left : Option Tree := none
  /-- Where the members after it start. -/
  first : Nat
  /-- The last first. -/
  members : List Tree := []

namespace OpenSet

def add (s : OpenSet) (t : Tree) : OpenSet := { s with members := t :: s.members }

def right (s : OpenSet) : Tree :=
  match s.members.getLast?, s.members.head? with
  | some a, some b => .joined .members ⟨a.mark.first, b.mark.last⟩ s.members
  | _, _ => .empty ⟨s.first, s.first⟩

def content (s : OpenSet) : Tree :=
  match s.left with
  | none => s.right
  | some l => .join .operation ⟨l.mark.first, s.right.mark.last⟩ [l, s.right]

def operate (s : OpenSet) (place : Nat) : OpenSet :=
  { s with left := some s.content, first := place, members := [] }

def close (s : OpenSet) (last : Nat) : Tree :=
  .join (.brackets s.negated) ⟨s.opening.first, last⟩ [s.content]

end OpenSet

def leadingDashes (m : Mode) (start : Nat) (members : List Tree) (cs : List Char) :
    Except Fault (List Tree × Rest cs) :=
  match cs with
  | '-' :: r =>
    match m.skip r with
    | ⟨[], _⟩ => .error (.of .classOpen start start)
    | ⟨c :: s, h⟩ =>
      have : (c :: s).length ≤ r.length := h
      (leadingDashes m start (.item (.literal '-' false) (m.here cs) :: members) (c :: s)).map
        fun (ts, t) => (ts, ⟨t.1, Nat.le_succ_of_le (Nat.le_trans t.2 h)⟩)
  | cs => .ok (members, Rest.all cs)
termination_by cs.length

/-- Opens a set after its bracket. A closing bracket as its first member stands for itself. -/
def openBrackets (m : Mode) (cs : List Char) : Except Fault (OpenSet × Rest cs) := do
  let start := m.place cs - 1
  let ⟨a, ha⟩ := m.skip cs
  let (negated, ⟨b, hb⟩) : Bool × Rest a :=
    if a.head? = some '^' then
      let r := m.skip a.tail
      (true, ⟨r.1, Nat.le_trans r.2 (by simp)⟩)
    else (false, Rest.all a)
  if b.isEmpty then throw (.of .classOpen start m.size)
  let (dashes, ⟨c, hc⟩) ← leadingDashes m start [] b
  let hc := Nat.le_trans hc (Nat.le_trans hb ha)
  let s : OpenSet := ⟨⟨start, m.place c⟩, negated, none, m.place b, dashes⟩
  if dashes.isEmpty && c.head? = some ']' then
    let ⟨d, hd⟩ := m.skip c.tail
    if d.isEmpty then throw (.of .classOpen start m.size)
    let s := { s.add (.item (.literal ']' false) (m.here c)) with opening := ⟨start, m.place d⟩ }
    return (s, ⟨d, Nat.le_trans hd (by simp; omega)⟩)
  else return (s, ⟨c, hc⟩)

def setNames : List String :=
  ["alnum", "alpha", "ascii", "blank", "cntrl", "digit", "graph", "lower", "print", "punct",
   "space", "upper", "word", "xdigit"]

def namedSet? (cs : List Char) : Option (Bool × Rest cs) :=
  match cs with
  | ':' :: r =>
    let negated := r.head? = some '^'
    let name := if negated then r.drop 1 else r
    let after := name.dropWhile (· ≠ ':')
    have ha : after.length ≤ r.length := by
      have h := (List.dropWhile_sublist (l := name) (· ≠ ':')).length_le
      have hn : name.length ≤ r.length := by
        simp only [name]
        split <;> simp
      exact Nat.le_trans h hn
    if setNames.contains (String.ofList (name.takeWhile (· ≠ ':'))) then
      match after, ha with
      | ':' :: ']' :: rest, ha => some (negated, ⟨rest, by simp at ha; simp; omega⟩)
      | _, _ => none
    else none
  | _ => none

/-- A character or what stands for one; other signs have no meaning of their own in a set. -/
def setItem (m : Mode) (c : Char) (cs : List Char) : Except Fault (Item × Rest cs) :=
  if c = '\\' then escape m cs else .ok (.literal c false, Rest.all cs)

def bound (i : Item) (mark : Mark) : Except Fault Literal :=
  match i with
  | .literal c isOctet => .ok ⟨c, isOctet, mark⟩
  | _ => .error ⟨.classRangeBound, [mark]⟩

def member (i : Item) (mark : Mark) : Except Fault Tree :=
  match i with
  | .literal .. | .set _ | .property _ => .ok (.item i mark)
  | _ => .error ⟨.classEscape, [mark]⟩

def memberOrRange (m : Mode) (opening : Mark) (c : Char) (cs : List Char) :
    Except Fault (Tree × Rest cs) := do
  let start := m.place cs - 1
  let (i, ⟨a, ha⟩) ← setItem m c cs
  let mark : Mark := ⟨start, m.place a⟩
  match m.skip a with
  | ⟨[], _⟩ => throw ⟨.classOpen, [opening]⟩
  | ⟨d :: r, hr⟩ =>
    if d ≠ '-' || m.afterDash? r = some ']' || m.afterDash? r = some '-' then
      return (← member i mark, ⟨d :: r, Nat.le_trans hr ha⟩)
    else match m.skip r with
      | ⟨[], _⟩ => throw ⟨.classOpen, [opening]⟩
      | ⟨e :: s, hs⟩ =>
        let (j, ⟨t, ht⟩) ← setItem m e s
        let x ← bound i mark
        let y ← bound j ⟨m.place s - 1, m.place t⟩
        if y.char < x.char then throw (.of .classRange start (m.place t))
        else return (.range x y, ⟨t, by simp at hr hs; omega⟩)

def isOperator (c : Char) : Bool := c = '&' || c = '-' || c = '~'

def inBrackets (m : Mode) (s : OpenSet) (outer : List OpenSet) (cs : List Char) :
    Except Fault (Tree × Rest cs) :=
  match m.skip cs with
  | ⟨[], _⟩ => .error ⟨.classOpen, [s.opening]⟩
  | ⟨c :: r, hr⟩ =>
    have : r.length < cs.length := hr
    if c = ']' then
      let t := s.close (m.place r)
      match outer with
      | [] => .ok (t, ⟨r, Nat.le_of_lt hr⟩)
      | o :: os => on (Nat.le_of_lt hr) (inBrackets m (o.add t) os r)
    else if c = '[' then
      match namedSet? r with
      | some (negated, ⟨a, ha⟩) =>
        let t := .item (.set negated) ⟨m.place r - 1, m.place a⟩
        on (Nat.le_trans ha (Nat.le_of_lt hr)) (inBrackets m (s.add t) outer a)
      | none =>
        match openBrackets m r with
        | .error e => .error e
        | .ok (inner, ⟨a, ha⟩) =>
          on (Nat.le_trans ha (Nat.le_of_lt hr)) (inBrackets m inner (s :: outer) a)
    else if isOperator c && r.head? = some c then
      let a := r.tail
      have : a.length ≤ r.length := by simp [a]
      on (Nat.le_trans this (Nat.le_of_lt hr)) (inBrackets m (s.operate (m.place a)) outer a)
    else
      match memberOrRange m s.opening c r with
      | .error e => .error e
      | .ok (t, ⟨a, ha⟩) =>
        on (Nat.le_trans ha (Nat.le_of_lt hr)) (inBrackets m (s.add t) outer a)
termination_by cs.length
where
  on {cs r : List Char} (h : r.length ≤ cs.length) (x : Except Fault (Tree × Rest r)) :
      Except Fault (Tree × Rest cs) :=
    x.map fun (t, s) => (t, s.within h)

end SweepReport.Pattern
