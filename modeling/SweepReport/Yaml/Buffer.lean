import SweepReport.Yaml.Text

/-! The text of a scalar while it is read. Characters make room for themselves; the spacing between
two words makes none and has to fit in. -/
namespace SweepReport.Yaml

/-- Why nothing can be read from a text. -/
inductive Fault where
  | malformed
  /-- Spacing does not fit in, at which the program breaks off. -/
  | crowded
  deriving DecidableEq, Repr

def orMalformed {α : Type} (x : Option α) : Except Fault α := x.elim (.error .malformed) .ok

def bytes : List Char → Nat
  | [] => 0
  | c :: cs => c.utf8Size + bytes cs

theorem bytes_append (cs ds : List Char) : bytes (cs ++ ds) = bytes cs + bytes ds := by
  induction cs with
  | nil => simp [bytes]
  | cons c cs ih => simp [bytes, ih, Nat.add_assoc]

theorem bytes_nil : 0 = bytes [] := rfl

structure Buffer where
  /-- The last first. -/
  chars : List Char := []
  size : Nat := 0
  /-- How many bytes there is room for. -/
  room : Nat := 16
  size_eq : size = bytes chars := by exact bytes_nil

namespace Buffer

def text (b : Buffer) : String := String.ofList b.chars.reverse

/-- Adds a character, for which the room is doubled unless more than five bytes are left. -/
def push (b : Buffer) (c : Char) : Buffer where
  chars := c :: b.chars
  size := c.utf8Size + b.size
  room := if b.size + 5 < b.room then b.room else 2 * b.room
  size_eq := by simp [bytes, b.size_eq]

def join (b : Buffer) (cs : List Char) : Except Fault Buffer :=
  if b.room < bytes cs + b.size then .error .crowded
  else .ok { b with
    chars := cs ++ b.chars
    size := bytes cs + b.size
    size_eq := by simp [bytes_append, b.size_eq] }

end Buffer

/-- Gaps and line ends between two words of a scalar, the last first. -/
structure Spacing where
  /-- Before any line end. -/
  gaps : List Char := []
  /-- Whether there was a line end. -/
  broken : Bool := false
  /-- The first line end, unless it was escaped. -/
  first : Option Char := none
  others : List Char := []
  deriving DecidableEq, Repr

namespace Spacing

def isEmpty (s : Spacing) : Bool := s.gaps.isEmpty && !s.broken

/-- Only gaps before the first line end can count. -/
def addGap (s : Spacing) (c : Char) : Spacing :=
  if s.broken then s else { s with gaps := c :: s.gaps }

def addBreak (s : Spacing) (c : Char) : Spacing :=
  if s.broken then { s with others := c :: s.others }
  else { broken := true, first := some c }

def escaped : Spacing := { broken := true }

/-- Adds what it reads as: a lone line feed is a space, and of several the first is dropped. -/
def addTo (s : Spacing) (b : Buffer) : Except Fault Buffer :=
  if !s.broken then b.join s.gaps
  else if s.first = some '\n' then
    if s.others.isEmpty then .ok (b.push ' ') else b.join s.others
  else b.join (s.others ++ s.first.toList)

end Spacing
end SweepReport.Yaml
