import SweepReport.Yaml.Block
import SweepReport.Yaml.Name

/-! A YAML text as its words of structure. What has the form of a key is known to be one only when
its colon comes; the words that open it are put in front of it then. -/
namespace SweepReport.Yaml

/-- Where a key may have started. -/
structure KeyStart where
  place : Position
  /-- The words before it. -/
  number : Nat
  /-- Whether nothing but a key can stand there. -/
  required : Bool
  deriving DecidableEq, Repr

/-- Characters from the start of a key to its colon, at most. -/
def keyLimit : Nat := 1024

namespace KeyStart

def isOver (k : KeyStart) (p : Position) : Bool :=
  k.place.line < p.line || k.place.column + keyLimit < p.column

/-- What is left of a start at a place; one that is required must not be over. -/
def atPlace (p : Position) : Option KeyStart → Except Fault (Option KeyStart)
  | none => .ok none
  | some k =>
    if !k.isOver p then .ok (some k) else if k.required then .error .malformed else .ok none

end KeyStart

structure Lexer where
  rest : List Char
  place : Position := .start
  /-- The last first. -/
  tokens : List Token := []
  /-- How far in the entries of each open block are, of the innermost first. -/
  indents : List Nat := []
  /-- Whether a key can start here. -/
  keyAllowed : Bool := true
  key : Option KeyStart := none
  /-- The same for each sequence or mapping in flow style that is open, as it was in front of it, the
  innermost first. -/
  outerKeys : List (Option KeyStart) := []

namespace Lexer

def inFlow (l : Lexer) : Bool := !l.outerKeys.isEmpty

def indent (l : Lexer) : Option Nat := l.indents.head?

def emit (l : Lexer) (t : Token) : Lexer := { l with tokens := t :: l.tokens }

def insert (l : Lexer) (number : Nat) (t : Token) : Lexer :=
  let after := l.tokens.length - number
  { l with tokens := l.tokens.take after ++ t :: l.tokens.drop after }

def skip (l : Lexer) (n : Nat) : Lexer :=
  { l with rest := l.rest.drop n, place := { l.place with column := l.place.column + n } }

def skipTo (l : Lexer) (rest : List Char) : Lexer := l.skip (l.rest.length - rest.length)

def dropKey (l : Lexer) : Except Fault Lexer :=
  if l.key.any KeyStart.required then .error .malformed else .ok { l with key := none }

/-- A key may start here. In a block mapping nothing else stands as far in as its keys. -/
def saveKey (l : Lexer) : Except Fault Lexer :=
  if !l.keyAllowed then .ok l
  else l.dropKey.map fun l =>
    let required := !l.inFlow && l.indent == some l.place.column
    { l with key := some ⟨l.place, l.tokens.length, required⟩ }

def forgetKeys (l : Lexer) : Except Fault Lexer := do
  let key ← KeyStart.atPlace l.place l.key
  let outerKeys ← l.outerKeys.mapM (KeyStart.atPlace l.place)
  return { l with key, outerKeys }

/-- Opens a block before the word of a number, unless one is open that is as far in. -/
def openBlock (l : Lexer) (column number : Nat) (t : Token) : Lexer :=
  if l.inFlow || l.indent.any (column ≤ ·) then l
  else { l.insert number t with indents := column :: l.indents }

def openBlockHere (l : Lexer) (t : Token) : Except Fault Lexer :=
  if !l.inFlow && !l.keyAllowed then .error .malformed
  else .ok (l.openBlock l.place.column l.tokens.length t)

def closeBlocks (l : Lexer) (p : Nat → Bool) : Lexer :=
  if l.inFlow then l
  else
    let ends := (l.indents.takeWhile p).map fun _ => Token.blockEnd
    { l with tokens := ends ++ l.tokens, indents := l.indents.dropWhile p }

def approach (l : Lexer) : Except Fault Lexer := do
  let (keyAllowed, place, rest) := skipIdle l.inFlow false l.keyAllowed l.place l.rest
  let l ← { l with keyAllowed, place, rest : Lexer }.forgetKeys
  return l.closeBlocks (l.place.column < ·)

def outer (l : Lexer) : Except Fault Lexer :=
  (l.closeBlocks fun _ => true).dropKey.map fun l => { l with keyAllowed := false }

def marker (l : Lexer) (t : Token) : Except Fault Lexer := l.outer.map fun l => (l.emit t).skip 3

def directive (l : Lexer) : Except Fault Lexer := do
  let l ← l.outer
  let (t, rest) ← orMalformed (Yaml.directive? (l.rest.drop 1))
  return { l.emit t with rest, place := l.place.newLine }

def openFlow (l : Lexer) (t : Token) : Except Fault Lexer :=
  l.saveKey.map fun l =>
    { (l.emit t).skip 1 with keyAllowed := true, key := none, outerKeys := l.key :: l.outerKeys }

def closeFlow (l : Lexer) (t : Token) : Except Fault Lexer :=
  l.dropKey.map fun l =>
    { (l.emit t).skip 1 with
      keyAllowed := false, key := l.outerKeys.head?.join, outerKeys := l.outerKeys.tail }

def flowEntry (l : Lexer) : Except Fault Lexer :=
  l.dropKey.map fun l => { (l.emit .flowEntry).skip 1 with keyAllowed := true }

/-- A dash in front of an entry; in flow style it is no word of structure that could stand there. -/
def blockEntry (l : Lexer) : Except Fault Lexer := do
  let l ← (← l.openBlockHere .blockSequence).dropKey
  return { (l.emit .blockEntry).skip 1 with keyAllowed := true }

def explicitKey (l : Lexer) : Except Fault Lexer := do
  let l ← (← l.openBlockHere .blockMapping).dropKey
  return { (l.emit .key).skip 1 with keyAllowed := !l.inFlow }

/-- A colon makes a key of what started as one. Else it belongs to a key with a question mark. -/
def value (l : Lexer) : Except Fault Lexer :=
  match l.key with
  | some k =>
    let l := (l.insert k.number .key).openBlock k.place.column k.number .blockMapping
    .ok { (l.emit .value).skip 1 with key := none, keyAllowed := false }
  | none =>
    (l.openBlockHere .blockMapping).map fun l =>
      { (l.emit .value).skip 1 with keyAllowed := !l.inFlow }

def named (l : Lexer) (read : List Char → Option (Token × List Char)) : Except Fault Lexer := do
  let l ← l.saveKey
  let (t, rest) ← orMalformed (read (l.rest.drop 1))
  return { (l.emit t).skipTo rest with keyAllowed := false }

def scalar (l : Lexer) (style : Style) (r : Read) : Lexer :=
  { l.emit (.scalar r.text style) with rest := r.rest, place := r.place }

def lineScalar (l : Lexer) (style : Style) (read : Lexer → Except Fault Read) :
    Except Fault Lexer := do
  let l ← l.saveKey
  let r ← read l
  return { l.scalar style r with keyAllowed := r.broken }

def blockScalar (l : Lexer) (folded : Bool) : Except Fault Lexer := do
  let l ← l.dropKey
  let r ← block folded l.indent l.place.next (l.rest.drop 1)
  return { l.scalar (if folded then .folded else .literal) r with keyAllowed := true }

def word (l : Lexer) : Except Fault Lexer :=
  match l.rest with
  | [] => l.outer.map (·.emit .textEnd)
  | c :: r =>
    let starts := l.place.column = 0
    if starts && c = '%' then l.directive
    else if starts && isTriple '-' (c :: r) then l.marker .documentStart
    else if starts && isTriple '.' (c :: r) then l.marker .documentEnd
    else if c = '[' then l.openFlow .flowSequence
    else if c = '\x7b' then l.openFlow .flowMapping
    else if c = ']' then l.closeFlow .flowSequenceEnd
    else if c = '\x7d' then l.closeFlow .flowMappingEnd
    else if c = ',' then l.flowEntry
    else if c = '-' && atGap r then l.blockEntry
    else if c = '?' && (l.inFlow || atGap r) then l.explicitKey
    else if c = ':' && (l.inFlow || atGap r) then l.value
    else if c = '*' then l.named fun r => (anchorName? r).map fun (n, r) => (.alias n, r)
    else if c = '&' then l.named fun r => (anchorName? r).map fun (n, r) => (.anchor n, r)
    else if c = '!' then l.named (tag? l.inFlow)
    else if (c = '|' || c = '>') && !l.inFlow then l.blockScalar (c = '>')
    else if c = '\x27' then
      l.lineScalar .singleQuoted fun l => singleQuoted l.place.next {} {} (l.rest.drop 1)
    else if c = '"' then
      l.lineScalar .doubleQuoted fun l => doubleQuoted l.place.next .text {} {} (l.rest.drop 1)
    else if startsPlain l.inFlow (c :: r) then
      l.lineScalar .plain fun l => plain l.inFlow (l.indent.elim 0 (· + 1)) l.place {} {} l.rest
    else .error .malformed

def next (l : Lexer) : Except Fault Lexer := do (← (← l.approach).word).forgetKeys

def settled (l : Lexer) : List Token :=
  let keys := (l.key :: l.outerKeys).filterMap id
  l.tokens.reverse.take ((keys.map KeyStart.number).foldl min l.tokens.length)

/-- All words, from the first. Each takes at least one character of the text. Where one cannot be
read, the settled words before it still count. -/
def words (l : Lexer) : List Token :=
  match l.next with
  | .error e => l.settled ++ [.broken e]
  | .ok n =>
    if n.tokens.head? == some .textEnd then n.tokens.reverse
    else if n.rest.length < l.rest.length then n.words
    else l.settled ++ [.broken .malformed]
termination_by l.rest.length

end Lexer

/-- The words of a text. One that has characters that no text has is not read at all. -/
def words (s : String) : List Token :=
  if s.toList.all isAllowed then Lexer.words { rest := unifyBreaks s.toList }
  else [.broken .malformed]

end SweepReport.Yaml
