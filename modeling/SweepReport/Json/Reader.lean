import SweepReport.Json

/-! JSON values read from text. The reading never fails; it ends in a broken value at the first
fault. A number beyond the range of doubles is a fault. -/
namespace SweepReport.Json

def isSpace (c : Char) : Bool := c = ' ' || c = '\t' || c = '\n' || c = '\r'

def skipSpace (cs : List Char) : List Char := cs.dropWhile isSpace

def hexCode? : List Char → Option (Nat × List Char)
  | a :: b :: c :: d :: r =>
    match Numeral.digitValue? 16 a, Numeral.digitValue? 16 b,
        Numeral.digitValue? 16 c, Numeral.digitValue? 16 d with
    | some a, some b, some c, some d => some (((a * 16 + b) * 16 + c) * 16 + d, r)
    | _, _, _, _ => none
  | _ => none

/-- The character of an escape with a code. Two codes may make one character, and neither half
stands alone. -/
def codeEscape? (cs : List Char) : Option (Char × List Char) :=
  match hexCode? cs with
  | none => none
  | some (n, r) =>
    if 0xd800 ≤ n ∧ n < 0xdc00 then
      match r with
      | '\\' :: 'u' :: r =>
        match hexCode? r with
        | some (m, r) =>
          if 0xdc00 ≤ m ∧ m < 0xe000 then
            some (Char.ofNat (0x10000 + (n - 0xd800) * 0x400 + (m - 0xdc00)), r)
          else none
        | none => none
      | _ => none
    else if 0xdc00 ≤ n ∧ n < 0xe000 then none
    else some (Char.ofNat n, r)

def escape? : List Char → Option (Char × List Char)
  | '"' :: r => some ('"', r)
  | '\\' :: r => some ('\\', r)
  | '/' :: r => some ('/', r)
  | 'b' :: r => some ('\x08', r)
  | 'f' :: r => some ('\x0c', r)
  | 'n' :: r => some ('\n', r)
  | 'r' :: r => some ('\r', r)
  | 't' :: r => some ('\t', r)
  | 'u' :: r => codeEscape? r
  | _ => none

def stringRest? : Nat → List Char → List Char → Option (String × List Char)
  | 0, _, _ => none
  | _, _, [] => none
  | fuel + 1, done, c :: r =>
    if c = '"' then some (String.ofList done.reverse, r)
    else if c = '\\' then
      match escape? r with
      | some (c, r) => stringRest? fuel (c :: done) r
      | none => none
    else if c.toNat < 0x20 then none
    else stringRest? fuel (c :: done) r

def string? (cs : List Char) : Option (String × List Char) := stringRest? (cs.length + 1) [] cs

/-- Digits of which only a lone zero starts with zero. -/
def wholeDigits? (cs : List Char) : Option (List Char × List Char) :=
  let ds := cs.takeWhile Numeral.isDigit
  let rest := cs.dropWhile Numeral.isDigit
  match ds with
  | [] => none
  | ['0'] => some (ds, rest)
  | '0' :: _ => none
  | _ => some (ds, rest)

def someDigits? (cs : List Char) : Option (List Char × List Char) :=
  let ds := cs.takeWhile Numeral.isDigit
  if ds.isEmpty then none else some (ds, cs.dropWhile Numeral.isDigit)

def fraction? : List Char → Option (Option (List Char) × List Char)
  | '.' :: r => (someDigits? r).map fun p => (some p.1, p.2)
  | r => some (none, r)

def signedDigits? : List Char → Option (Int × List Char)
  | '-' :: r => (someDigits? r).map fun p => (-(Numeral.digitsValue p.1 : Int), p.2)
  | '+' :: r => (someDigits? r).map fun p => ((Numeral.digitsValue p.1 : Int), p.2)
  | r => (someDigits? r).map fun p => ((Numeral.digitsValue p.1 : Int), p.2)

def exponent? : List Char → Option (Option Int × List Char)
  | c :: r =>
    if c = 'e' ∨ c = 'E' then (signedDigits? r).map fun p => (some p.1, p.2)
    else some (none, c :: r)
  | [] => some (none, [])

def inRange? (n : Number) : Option Number :=
  if n.toFloat.isFinite then some n else none

def unsigned? (negative : Bool) (cs : List Char) : Option (Number × List Char) := do
  let (whole, r) ← wholeDigits? cs
  let (fraction, r) ← fraction? r
  let (e, r) ← exponent? r
  let n ← inRange? <|
    match fraction, e with
    | none, none => .integer negative (Numeral.digitsValue whole)
    | _, _ =>
      let places := fraction.getD []
      .decimal ⟨negative, Numeral.digitsValue (whole ++ places), e.getD 0 - places.length⟩
  return (n, r)

def number? : List Char → Option (Number × List Char)
  | '-' :: r => unsigned? true r
  | r => unsigned? false r

def word (expected : List Char) (v : Json) (cs : List Char) : Json × List Char :=
  if expected.isPrefixOf cs then (v, cs.drop expected.length) else (broken, [])

mutual

def value : Nat → List Char → Json × List Char
  | 0, _ => (broken, [])
  | fuel + 1, cs =>
    match skipSpace cs with
    | [] => (broken, [])
    | '\x7b' :: r => firstMember fuel r
    | '[' :: r => firstItem fuel r
    | '"' :: r =>
      match string? r with
      | some (s, r) => (text s, r)
      | none => (broken, [])
    | c :: r =>
      if c = 'n' then word "null".toList null (c :: r)
      else if c = 't' then word "true".toList (bool true) (c :: r)
      else if c = 'f' then word "false".toList (bool false) (c :: r)
      else match number? (c :: r) with
        | some (n, r) => (number n, r)
        | none => (broken, [])

def firstItem : Nat → List Char → Json × List Char
  | 0, _ => (array [] false, [])
  | fuel + 1, cs =>
    match skipSpace cs with
    | ']' :: r => (array [] true, r)
    | r =>
      let (items, closed, r) := items fuel r
      (array items closed, r)

def items : Nat → List Char → List Json × Bool × List Char
  | 0, _ => ([], false, [])
  | fuel + 1, cs =>
    let (v, r) := value fuel cs
    match skipSpace r with
    | ']' :: r => ([v], true, r)
    | ',' :: r =>
      let (vs, closed, r) := items fuel r
      (v :: vs, closed, r)
    | _ => ([v], false, [])

def firstMember : Nat → List Char → Json × List Char
  | 0, _ => (object [] false, [])
  | fuel + 1, cs =>
    match skipSpace cs with
    | '\x7d' :: r => (object [] true, r)
    | r =>
      let (ms, closed, r) := members fuel r
      (object ms closed, r)

def members : Nat → List Char → List (String × Json) × Bool × List Char
  | 0, _ => ([], false, [])
  | fuel + 1, cs =>
    match skipSpace cs with
    | '"' :: r =>
      match string? r with
      | none => ([], false, [])
      | some (k, r) =>
        match skipSpace r with
        | ':' :: r =>
          let (v, r) := value fuel r
          match skipSpace r with
          | '\x7d' :: r => ([(k, v)], true, r)
          | ',' :: r =>
            let (ms, closed, r) := members fuel r
            ((k, v) :: ms, closed, r)
          | _ => ([(k, v)], false, [])
        | _ => ([(k, broken)], false, [])
    | _ => ([], false, [])

end

/-- A text read as one value, and whether the text ends with it. -/
structure Document where
  value : Json
  ended : Bool

/-- Each level of a value takes three steps and a character at least. -/
def read (s : String) : Document :=
  let cs := s.toList
  let (v, r) := value (3 * cs.length + 3) cs
  ⟨v, (skipSpace r).isEmpty⟩

end SweepReport.Json
