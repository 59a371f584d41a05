import SweepReport.Yaml.Token

/-! Names in a YAML text: anchors, tags and directives. -/
namespace SweepReport.Yaml

def isWordChar (c : Char) : Bool := c.isAlphanum || c = '_' || c = '-'

/-- Characters of a tag's text. Signs of flow style belong to it only where its end is marked. -/
def isTagChar (signs : Bool) (c : Char) : Bool :=
  isWordChar c || (signs && [',', '[', ']'].contains c) ||
    [';', '/', '?', ':', '@', '&', '=', '+', '$', '.', '!', '~', '*', '\x27', '(', ')'].contains c

def octetsAfter? (octet : Nat) : Option Nat :=
  if octet < 0x80 then some 0
  else if octet < 0xc0 then none
  else if octet < 0xe0 then some 1
  else if octet < 0xf0 then some 2
  else if octet < 0xf8 then some 3
  else none

/-- The text of a tag and what follows. Octets that are given by their digits complete a character
before anything else stands; each counts as a character here. -/
def tagText? (signs : Bool) : Nat → List Char → Option (List Char × List Char)
  | due, '%' :: a :: b :: r => do
    let octet := (← Numeral.digitValue? 16 a) * 16 + (← Numeral.digitValue? 16 b)
    let due ← if due = 0 then octetsAfter? octet
      else if 0x80 ≤ octet ∧ octet < 0xc0 then some (due - 1) else none
    let (s, rest) ← tagText? signs due r
    return (Char.ofNat octet :: s, rest)
  | due, c :: r =>
    if due ≠ 0 || c = '%' then none
    else if isTagChar signs c then (tagText? signs 0 r).map fun (s, rest) => (c :: s, rest)
    else some ([], c :: r)
  | due, [] => if due = 0 then some ([], []) else none

def tagSuffix? (signs : Bool) (cs : List Char) : Option (List Char × List Char) :=
  (tagText? signs 0 cs).filter fun s => !s.1.isEmpty

/-- The text of a tag that counts: what stands before a NUL. -/
def tagOf (cs : List Char) : String := String.ofList (cs.takeWhile (· ≠ '\x00'))

/-- A tag after its exclamation mark: in angle brackets as it is, with a handle between exclamation
marks, or with the short handle. The mark alone is a tag of its own. -/
def tagName? (cs : List Char) : Option (Token × List Char) :=
  match cs with
  | '<' :: r =>
    match tagSuffix? true r with
    | some (s, '>' :: rest) => some (.tag "" (tagOf s), rest)
    | _ => none
  | cs =>
    let word := cs.takeWhile isWordChar
    match cs.dropWhile isWordChar with
    | '!' :: r =>
      (tagSuffix? false r).map fun (s, rest) =>
        (.tag (String.ofList ('!' :: word ++ ['!'])) (tagOf s), rest)
    | r =>
      (tagText? false 0 r).map fun (s, rest) =>
        let suffix := tagOf (word ++ s)
        (if suffix.isEmpty then .tag "" "!" else .tag "!" suffix, rest)

def tag? (inFlow : Bool) (cs : List Char) : Option (Token × List Char) :=
  (tagName? cs).filter fun s => atGap s.2 || (inFlow && s.2.head? == some ',')

def anchorName? (cs : List Char) : Option (String × List Char) :=
  let rest := cs.dropWhile isWordChar
  let ends := atGap rest ||
    rest.head?.any ['?', ':', ',', ']', '\x7d', '%', '@', '\x60'].contains
  let name := cs.takeWhile isWordChar
  if name.isEmpty || !ends then none else some (String.ofList name, rest)

def versionDigits : Nat := 9

def versionNumber? (cs : List Char) : Option (Nat × List Char) :=
  let digits := cs.takeWhile Char.isDigit
  if digits.isEmpty || versionDigits < digits.length then none
  else (Numeral.readDigits 10 0 digits).toOption.map fun n => (n, cs.dropWhile Char.isDigit)

def version? (cs : List Char) : Option (Token × List Char) := do
  let (major, r) ← versionNumber? (skipGap cs)
  match r with
  | '.' :: r =>
    let (minor, r) ← versionNumber? r
    return (.version major minor, r)
  | _ => none

def shorthand? (cs : List Char) : Option (Token × List Char) := do
  let (handle, r) ← match skipGap cs with
    | '!' :: r =>
      let word := r.takeWhile isWordChar
      match r.dropWhile isWordChar with
      | '!' :: r => some ('!' :: word ++ ['!'], r)
      | r => if word.isEmpty then some (['!'], r) else none
    | _ => none
  if r.head?.any isGap then
    let (stem, r) ← tagSuffix? true (skipGap r)
    if atGap r then some (.shorthand (String.ofList handle) (tagOf stem), r) else none
  else none

def directive? (cs : List Char) : Option (Token × List Char) := do
  let r := cs.dropWhile isWordChar
  let (t, r) ←
    if !atGap r then none
    else match String.ofList (cs.takeWhile isWordChar) with
      | "YAML" => version? r
      | "TAG" => shorthand? r
      | _ => none
  let r := skipGap r
  match r with
  | [] => return (t, [])
  | c :: _ =>
    if c = '#' then return (t, (r.dropWhile (!isBreak ·)).drop 1)
    else if isBreak c then return (t, r.drop 1)
    else none

end SweepReport.Yaml
