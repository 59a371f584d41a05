import SweepReport.Yaml.Token

/-! Scalars within lines: plain ones and those in quotes. A line end within one is folded into the
text between its words. -/
namespace SweepReport.Yaml

/-- A scalar that was read, and where it ends. -/
structure Read where
  text : String
  /-- Whether line ends follow it that it might have held. -/
  broken : Bool
  place : Position
  rest : List Char

def isFlowSign (c : Char) : Bool := [',', '[', ']', '\x7b', '\x7d'].contains c

def isIndicator (c : Char) : Bool :=
  isFlowSign c || ['#', '&', '*', '!', '|', '>', '%', '@', '\x60', '"', '\x27'].contains c

/-- A dash that no gap follows starts a plain scalar, and so do a question mark and a colon outside of
flow style. -/
def startsPlain (inFlow : Bool) : List Char → Bool
  | [] => false
  | c :: r =>
    if c = '-' then !atGap r
    else if c = '?' || c = ':' then !inFlow && !atGap r
    else !isGap c && !isBreak c && !isIndicator c

def isStrayColon (c : Char) (r : List Char) : Bool :=
  c = ':' && r.head?.any fun d => d = '?' || isFlowSign d

/-- The text of a plain scalar so far, and the spacing after it, which joins the text only before
another character of it. The scalar ends before a comment, before a colon that a gap follows, before
a sign of flow style, where a document starts or ends, and in a line that is not further in than its
mapping. -/
def plain (inFlow : Bool) (indent : Nat) :
    Position → Buffer → Spacing → List Char → Except Fault Read
  | p, b, s, [] => .ok ⟨b.text, s.broken, p, []⟩
  | p, b, s, c :: r =>
    if isBreak c then plain inFlow indent p.newLine b (s.addBreak c) r
    else if isGap c then
      if s.broken && p.column < indent && c = '\t' then .error .malformed
      else plain inFlow indent p.next b (s.addGap c) r
    else if !s.isEmpty && ((!inFlow && p.column < indent) || atMarker p (c :: r) || c = '#') then
      .ok ⟨b.text, s.broken, p, c :: r⟩
    else if inFlow && isStrayColon c r then .error .malformed
    else if (c = ':' && atGap r) || (inFlow && isFlowSign c) then
      .ok ⟨b.text, s.broken, p, c :: r⟩
    else do plain inFlow indent p.next ((← s.addTo b).push c) {} r

/-- The rest of a scalar in single quotes, where two stand for one. Spacing joins the text before
anything else is looked at. -/
def singleQuoted : Position → Buffer → Spacing → List Char → Except Fault Read
  | _, b, s, [] => s.addTo b >>= fun _ => .error .malformed
  | p, b, s, '\x27' :: '\x27' :: r => do
    singleQuoted p.next.next ((← s.addTo b).push '\x27') {} r
  | p, b, s, c :: r =>
    if isBreak c then singleQuoted p.newLine b (s.addBreak c) r
    else if isGap c then singleQuoted p.next b (s.addGap c) r
    else do
      let b ← s.addTo b
      if c = '\x27' then .ok ⟨b.text, false, p.next, r⟩
      else if atMarker p (c :: r) then .error .malformed
      else singleQuoted p.next (b.push c) {} r

def escapes : List (Char × Char) :=
  [('0', '\x00'), ('a', '\x07'), ('b', '\x08'), ('t', '\t'), ('\t', '\t'), ('n', '\n'),
   ('v', '\x0b'), ('f', '\x0c'), ('r', '\r'), ('e', '\x1b'), (' ', ' '), ('"', '"'), ('/', '/'),
   ('\\', '\\'), ('N', '\u0085'), ('_', '\u00a0'), ('L', '\u2028'), ('P', '\u2029')]

def codeLengths : List (Char × Nat) := [('x', 2), ('u', 4), ('U', 8)]

def charOf? (n : Nat) : Option Char := if h : n.isValidChar then some (Char.ofNatAux n h) else none

/-- Within double quotes: text, after a backslash, or with so many digits of a code still to come. -/
inductive Quoting where
  | text
  | escape
  | code (more value : Nat)
  deriving DecidableEq, Repr

/-- The rest of a scalar in double quotes. An escaped line end leaves nothing in the text. -/
def doubleQuoted : Position → Quoting → Buffer → Spacing → List Char → Except Fault Read
  | _, _, b, s, [] => s.addTo b >>= fun _ => .error .malformed
  | p, .escape, b, s, c :: r =>
    if isBreak c then doubleQuoted p.newLine .text b .escaped r
    else match escapes.lookup c, codeLengths.lookup c with
      | some d, _ => doubleQuoted p.next .text (b.push d) {} r
      | none, some n => doubleQuoted p.next (.code n 0) b s r
      | none, none => .error .malformed
  | p, .code more value, b, s, c :: r =>
    match Numeral.digitValue? 16 c with
    | none => .error .malformed
    | some d =>
      if more ≤ 1 then
        match charOf? (value * 16 + d) with
        | some e => doubleQuoted p.next .text (b.push e) {} r
        | none => .error .malformed
      else doubleQuoted p.next (.code (more - 1) (value * 16 + d)) b s r
  | p, .text, b, s, c :: r =>
    if isBreak c then doubleQuoted p.newLine .text b (s.addBreak c) r
    else if isGap c then doubleQuoted p.next .text b (s.addGap c) r
    else do
      let b ← s.addTo b
      if c = '"' then .ok ⟨b.text, false, p.next, r⟩
      else if c = '\\' then doubleQuoted p.next .escape b {} r
      else if atMarker p (c :: r) then .error .malformed
      else doubleQuoted p.next .text (b.push c) {} r

end SweepReport.Yaml
