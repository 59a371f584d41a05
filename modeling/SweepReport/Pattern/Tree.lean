import SweepReport.Pattern.Fault

/-! Search patterns as trees, with the stretch of the pattern that each part stands for. -/
namespace SweepReport.Pattern

structure Literal where
  char : Char
  /-- Whether two digits give it, which may also mean an octet. -/
  isOctet : Bool
  mark : Mark
  deriving DecidableEq, Repr

/-- What a character stands for, or several after a backslash. -/
inductive Item where
  | literal (char : Char) (isOctet : Bool)
  | dot
  /-- One of several characters, or one of all the others. -/
  | set (negated : Bool)
  | property (known : Bool)
  | anchor
  /-- A place where a word starts or ends. -/
  | boundary
  deriving DecidableEq, Repr

/-- How parts make up a whole. -/
inductive Join where
  /-- With a flag that is on or off within the group. -/
  | group (unicode : Option Bool)
  | repetition
  | sequence
  | alternatives
  | brackets (negated : Bool)
  | members
  | operation
  deriving DecidableEq, Repr

inductive Tree where
  | empty (mark : Mark)
  | item (item : Item) (mark : Mark)
  | range (first last : Literal)
  /-- Flags that hold from here on to the end of the group. -/
  | flags (unicode : Option Bool) (mark : Mark)
  | join (join : Join) (mark : Mark) (parts : List Tree)
  deriving Repr

namespace Tree

def mark : Tree → Mark
  | empty m => m
  | item _ m => m
  | range a b => ⟨a.mark.first, b.mark.last⟩
  | flags _ m => m
  | join _ m _ => m

/-- Parts, given last first, in a stretch. A part alone stands for itself. -/
def joined (j : Join) (m : Mark) : List Tree → Tree
  | [] => empty m
  | [t] => t
  | ts => join j m ts.reverse

mutual

def tooDeep? (limit : Nat) : Tree → Option Mark
  | join _ m ts => if limit = 0 then some m else anyTooDeep? (limit - 1) ts
  | _ => none

def anyTooDeep? (limit : Nat) : List Tree → Option Mark
  | [] => none
  | t :: ts => (t.tooDeep? limit).or (anyTooDeep? limit ts)

end

end Tree
end SweepReport.Pattern
