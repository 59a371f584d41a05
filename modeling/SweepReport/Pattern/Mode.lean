import SweepReport.Pattern.Fault
import SweepReport.Text.Blank

/-! How a pattern is walked. In a verbose one, blanks and comments count for nothing. -/
namespace SweepReport.Pattern

abbrev Rest (cs : List Char) := { r : List Char // r.length ≤ cs.length }

namespace Rest

def all (cs : List Char) : Rest cs := ⟨cs, Nat.le_refl _⟩

def tail (cs : List Char) : Rest cs := ⟨cs.tail, by simp⟩

def within {cs r : List Char} (h : r.length ≤ cs.length) (s : Rest r) : Rest cs :=
  ⟨s.1, Nat.le_trans s.2 h⟩

end Rest

structure Mode where
  /-- The characters of the whole pattern. -/
  size : Nat
  verbose : Bool
  deriving DecidableEq, Repr

/-- What follows blanks and comments. A comment goes from a number sign to the end of its line. -/
def skipBlanks (inComment : Bool) : (cs : List Char) → Rest cs
  | [] => Rest.all []
  | c :: cs =>
    let go (inComment : Bool) : Rest (c :: cs) :=
      let r := skipBlanks inComment cs
      ⟨r.1, Nat.le_succ_of_le r.2⟩
    if inComment then go (c ≠ '\n')
    else if Text.isBlank c then go false
    else if c = '#' then go true
    else Rest.all (c :: cs)

namespace Mode

def place (m : Mode) (cs : List Char) : Nat := m.size - cs.length

def here (m : Mode) (cs : List Char) : Mark := ⟨m.place cs, m.place cs + 1⟩

def skip (m : Mode) (cs : List Char) : Rest cs :=
  if m.verbose then skipBlanks false cs else Rest.all cs

def visible (m : Mode) (cs : List Char) : List (Nat × Char) :=
  match m.skip cs with
  | ⟨[], _⟩ => []
  | ⟨c :: r, _⟩ => (m.place (c :: r), c) :: m.visible r
termination_by cs.length

def placeOf (m : Mode) (vs : List (Nat × Char)) : Nat := (vs.head?.map Prod.fst).getD m.size

/-- The character that tells whether a dash before it stands for itself. A number sign is passed once
like a blank, and at the end blanks tell it as well. -/
def afterDash? (m : Mode) (cs : List Char) : Option Char :=
  if !m.verbose then cs.head?
  else
    let r := cs.dropWhile Text.isBlank
    let r := if r.head? = some '#' then (r.drop 1).dropWhile Text.isBlank else r
    r.head?.or cs.head?

end Mode
end SweepReport.Pattern
