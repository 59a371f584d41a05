import SweepReport.Numeral.Word

/-! The characters of a YAML text, places in it, and what stands between its words of structure. -/
namespace SweepReport.Yaml

def isGap (c : Char) : Bool := c = ' ' || c = '\t'

def isBreak (c : Char) : Bool := c = '\n' || c = '\u2028' || c = '\u2029'

def byteOrderMark : Char := '\ufeff'

def isAllowed (c : Char) : Bool :=
  c = '\t' || c = '\n' || c = '\r' || c = '\u0085' || (' ' ≤ c && c ≤ '~') ||
    ('\u00a0' ≤ c && c ≤ '\ufffd') || 0xffff < c.toNat

def unifyBreaks : List Char → List Char
  | '\r' :: '\n' :: r => '\n' :: unifyBreaks r
  | c :: r => (if c = '\r' || c = '\u0085' then '\n' else c) :: unifyBreaks r
  | [] => []

def atGap : List Char → Bool
  | [] => true
  | c :: _ => isGap c || isBreak c

def skipGap (cs : List Char) : List Char := cs.dropWhile isGap

/-- Both are counted from zero. -/
structure Position where
  line : Nat
  column : Nat
  deriving DecidableEq, Repr

namespace Position

def start : Position := ⟨0, 0⟩

def next (p : Position) : Position := { p with column := p.column + 1 }

def newLine (p : Position) : Position := ⟨p.line + 1, 0⟩

end Position

def isTriple (mark : Char) : List Char → Bool
  | a :: b :: c :: r => a = mark && b = mark && c = mark && atGap r
  | _ => false

/-- Where a document starts or ends, which is told at the start of a line only. -/
def atMarker (p : Position) (cs : List Char) : Bool :=
  p.column = 0 && (isTriple '-' cs || isTriple '.' cs)

/-- What stands before the next word of structure: gaps, line ends, comments, and a mark in front of
a line. A tab stands there only within flow style or where no key can start; a line end lets one
start. -/
def skipIdle (inFlow : Bool) : Bool → Bool → Position → List Char → Bool × Position × List Char
  | _, keyAllowed, p, [] => (keyAllowed, p, [])
  | comment, keyAllowed, p, c :: r =>
    if isBreak c then skipIdle inFlow false (keyAllowed || !inFlow) p.newLine r
    else if comment then skipIdle inFlow true keyAllowed p.next r
    else if c = ' ' || (c = '\t' && (inFlow || !keyAllowed)) || (c = byteOrderMark && p.column = 0) then
      skipIdle inFlow false keyAllowed p.next r
    else if c = '#' then skipIdle inFlow true keyAllowed p.next r
    else (keyAllowed, p, c :: r)

end SweepReport.Yaml
