/-! Faults of search patterns and how they are shown: under the pattern, with the stretch that is at
fault marked. -/
namespace SweepReport.Pattern

inductive Cause where
  | classEscape
  | classRange
  | classRangeBound
  | classOpen
  | countTooLarge
  | hexNoCharacter
  | hexDigit
  | escapeEnds
  | escapeUnknown
  | flagNegationLast
  | flagTwice
  | flagNegationTwice
  | flagEnds
  | flagUnknown
  | nameTwice
  | nameEmpty
  | nameCharacter
  | nameEnds
  | groupOpen
  | groupNotOpen
  | countMissing
  | countOpen
  | nothingToRepeat
  | boundaryOpen
  | boundaryOrCountOpen
  | propertyName
  | propertyUnknown
  | backreference
  | lookAround
  | tooDeep
  | notUtf8
  | notAscii
  deriving DecidableEq, Repr

def nestLimit : Nat := 250

def Cause.message : Cause → String
  | classEscape => "invalid escape sequence found in character class"
  | classRange => "invalid character class range, the start must be <= the end"
  | classRangeBound => "invalid range boundary, must be a literal"
  | classOpen => "unclosed character class"
  | countTooLarge => "decimal literal invalid"
  | hexNoCharacter => "hexadecimal literal is not a Unicode scalar value"
  | hexDigit => "invalid hexadecimal digit"
  | escapeEnds => "incomplete escape sequence, reached end of pattern prematurely"
  | escapeUnknown => "unrecognized escape sequence"
  | flagNegationLast => "dangling flag negation operator"
  | flagTwice => "duplicate flag"
  | flagNegationTwice => "flag negation operator repeated"
  | flagEnds => "expected flag but got end of regex"
  | flagUnknown => "unrecognized flag"
  | nameTwice => "duplicate capture group name"
  | nameEmpty => "empty capture group name"
  | nameCharacter => "invalid capture group character"
  | nameEnds => "unclosed capture group name"
  | groupOpen => "unclosed group"
  | groupNotOpen => "unopened group"
  | countMissing => "repetition quantifier expects a valid decimal"
  | countOpen => "unclosed counted repetition"
  | nothingToRepeat => "repetition operator missing expression"
  | boundaryOpen =>
    "special word boundary assertion is either unclosed or contains an invalid character"
  | boundaryOrCountOpen =>
    "found either the beginning of a special word boundary or a bounded repetition on a \\b with "
      ++ "an opening brace, but no closing brace"
  | propertyName => "invalid Unicode character class"
  | propertyUnknown => "Unicode property not found"
  | backreference => "backreferences are not supported"
  | lookAround => "look-around, including look-ahead and look-behind, is not supported"
  | tooDeep => s!"exceed the maximum number of nested parentheses/brackets ({nestLimit})"
  | notUtf8 => "pattern can match invalid UTF-8"
  | notAscii => "Unicode not allowed here"

/-- A stretch of a pattern, by how many characters lie before its start and before its end. -/
structure Mark where
  first : Nat
  last : Nat
  deriving DecidableEq, Repr

structure Fault where
  cause : Cause
  /-- In the order of the pattern. -/
  marks : List Mark
  deriving DecidableEq, Repr

def Fault.of (cause : Cause) (first last : Nat) : Fault := ⟨cause, [⟨first, last⟩]⟩

def lineAndColumn (pattern : List Char) (n : Nat) : Nat × Nat :=
  let before := pattern.take n
  (before.count '\n', (before.reverse.takeWhile (· ≠ '\n')).length)

def Mark.ends (m : Mark) (pattern : List Char) : (Nat × Nat) × (Nat × Nat) :=
  (lineAndColumn pattern m.first, lineAndColumn pattern m.last)

def carets (column : Nat) : List (Nat × Nat) → List Char
  | [] => []
  | (first, last) :: ms =>
    let width := max 1 (last - first)
    List.replicate (first - column) ' ' ++ List.replicate width '^' ++ carets (first + width) ms

def patternLines (pattern : List Char) : List (List Char) :=
  let ls := pattern.splitOn '\n'
  let ended := ls.dropLast.map fun l => if l.getLast? = some '\r' then l.dropLast else l
  ended ++ (ls.drop ended.length).filter (!·.isEmpty)

def numberWidth (pattern : List Char) : Nat :=
  let lines := (pattern.splitOn '\n').length
  if lines ≤ 1 then 0 else (Nat.toDigits 10 lines).length

def lineHead (width number : Nat) : List Char :=
  if width = 0 then List.replicate 4 ' '
  else
    let digits := Nat.toDigits 10 number
    List.replicate (width - digits.length) ' ' ++ digits ++ [':', ' ']

def shownLines (pattern : List Char) (ends : List ((Nat × Nat) × (Nat × Nat))) :
    List (List Char) :=
  let width := numberWidth pattern
  (patternLines pattern).zipIdx.flatMap fun (l, i) =>
    let here := ends.filterMap fun (a, b) =>
      if a.1 = i ∧ b.1 = i then some (a.2, b.2) else none
    let line := lineHead width (i + 1) ++ l
    if here.isEmpty then [line]
    else [line, List.replicate (if width = 0 then 4 else width + 2) ' ' ++ carets 0 here]

def stretchText (a b : Nat × Nat) : List Char :=
  s!"on line {a.1 + 1} (column {a.2 + 1}) through line {b.1 + 1} (column {b.2})".toList

def Fault.text (f : Fault) (pattern : List Char) : String :=
  let ends := f.marks.map (·.ends pattern)
  let shown := shownLines pattern ends
  let long := (ends.filter fun (a, b) => a.1 ≠ b.1).map fun (a, b) => stretchText a b
  let lines :=
    if pattern.contains '\n' then
      let divider := List.replicate 79 '~'
      divider :: shown ++ divider :: long
    else shown
  String.ofList ("regex parse error:\n".toList ++ lines.flatMap (· ++ ['\n'])
    ++ "error: ".toList ++ f.cause.message.toList)

end SweepReport.Pattern
