import SweepReport.Numeral.Word
import SweepReport.Pattern.Mode
import SweepReport.Pattern.Tree

/-! What a character of a pattern stands for, or several after a backslash. A pattern stands within
braces among other patterns, so that it has no closing brace and no comma. -/
namespace SweepReport.Pattern

def metaChars : List Char :=
  ['\\', '.', '+', '*', '?', '(', ')', '|', '[', ']', '\x7b', '\x7d', '^', '$', '#', '&', '-', '~']

/-- Signs of the first half of the table stand for themselves after a backslash, letters and digits
do not. -/
def isPlainEscape (c : Char) : Bool :=
  metaChars.contains c || (c.toNat < 0x80 && !c.isAlphanum && c ≠ '<' && c ≠ '>')

def controlEscape? : Char → Option Char
  | 'a' => some '\x07'
  | 'f' => some '\x0c'
  | 't' => some '\t'
  | 'n' => some '\n'
  | 'r' => some '\r'
  | 'v' => some '\x0b'
  | _ => none

def hexDigits? : Char → Option Nat
  | 'x' => some 2
  | 'u' => some 4
  | 'U' => some 8
  | _ => none

def isHexDigit (c : Char) : Bool := (Numeral.digitValue? 16 c).isSome

def propertyNames : List Char := ['c', 'l', 'm', 'n', 'p', 's', 'z']

def isBoundaryChar (c : Char) : Bool := c.isAlpha || c = '-'

def hexNumber (m : Mode) (first : Nat) :
    Nat → Nat → (cs : List Char) → Except Fault (Char × Rest cs)
  | 0, value, cs =>
    if h : value.isValidChar then .ok (Char.ofNatAux value h, Rest.all cs)
    else .error (.of .hexNoCharacter first (m.place cs))
  | _ + 1, _, [] => .error (.of .escapeEnds m.size m.size)
  | n + 1, value, c :: cs =>
    match Numeral.digitValue? 16 c with
    | none => .error ⟨.hexDigit, [m.here (c :: cs)]⟩
    | some d =>
      let s := m.skip cs
      (hexNumber m first n (value * 16 + d) s.1).map fun (x, r) =>
        (x, ⟨r.1, Nat.le_succ_of_le (Nat.le_trans r.2 s.2)⟩)

def openHex (m : Mode) (cs : List Char) : Fault :=
  match (m.visible (cs.drop 1)).dropWhile (isHexDigit ·.2) with
  | [] => .of .escapeEnds (m.place cs) m.size
  | (p, _) :: _ => .of .hexDigit p (p + 1)

def hexEscape (m : Mode) (digits : Nat) (cs : List Char) : Except Fault (Item × Rest cs) :=
  match m.skip cs with
  | ⟨'\x7b' :: r, _⟩ => .error (openHex m ('\x7b' :: r))
  | ⟨r, h⟩ =>
    (hexNumber m (m.place r) digits 0 r).map fun (c, s) =>
      (.literal c (digits = 2), s.within h)

def propertyEscape (m : Mode) (cs : List Char) : Except Fault (Item × Rest cs) :=
  match m.skip cs with
  | ⟨[], _⟩ => .error (.of .escapeEnds m.size m.size)
  | ⟨c :: r, h⟩ =>
    if c = '\x7b' then .error (.of .escapeEnds m.size m.size)
    else if c = '\\' then .error ⟨.propertyName, [m.here (c :: r)]⟩
    else
      let s := m.skip r
      .ok (.property (propertyNames.contains c.toLower),
        ⟨s.1, Nat.le_trans s.2 (Nat.le_of_succ_le h)⟩)

/-- A boundary, unless a brace after it starts the name of a special one, which is not closed. -/
def boundaryEscape (m : Mode) (start : Nat) (cs : List Char) : Except Fault (Item × Rest cs) :=
  match cs with
  | '\x7b' :: r =>
    match m.visible r with
    | [] => .error (.of .boundaryOrCountOpen start m.size)
    | v :: vs =>
      if isBoundaryChar v.2 then
        let last := m.placeOf (vs.dropWhile (isBoundaryChar ·.2))
        .error (.of .boundaryOpen (m.place ('\x7b' :: r)) last)
      else .ok (.boundary, Rest.all ('\x7b' :: r))
  | cs => .ok (.boundary, Rest.all cs)

def escape (m : Mode) : (cs : List Char) → Except Fault (Item × Rest cs)
  | [] => .error (.of .escapeEnds (m.size - 1) m.size)
  | c :: cs =>
    let start := m.place (c :: cs) - 1
    let longer (x : Except Fault (Item × Rest cs)) : Except Fault (Item × Rest (c :: cs)) :=
      x.map fun (i, r) => (i, ⟨r.1, Nat.le_succ_of_le r.2⟩)
    let alone (i : Item) : Except Fault (Item × Rest (c :: cs)) := .ok (i, ⟨cs, Nat.le_succ _⟩)
    if c.isDigit then .error (.of .backreference start (start + 2))
    else if let some digits := hexDigits? c then longer (hexEscape m digits cs)
    else if c = 'p' || c = 'P' then longer (propertyEscape m cs)
    else if ['d', 's', 'w'].contains c then alone (.set false)
    else if ['D', 'S', 'W'].contains c then alone (.set true)
    else if isPlainEscape c then alone (.literal c false)
    else if let some x := controlEscape? c then alone (.literal x false)
    else if c = 'A' || c = 'z' then alone .anchor
    else if c = 'b' then longer (boundaryEscape m start cs)
    else if ['B', '<', '>'].contains c then alone .boundary
    else .error (.of .escapeUnknown start (start + 2))

end SweepReport.Pattern
