import SweepReport.Script

/-! The words and signs of a script. -/
namespace SweepReport.Script

inductive Token where
  | word (w : Word)
  /-- A line end or semicolon. -/
  | stop
  | and
  | or
  | into (append : Bool)
  deriving DecidableEq, Repr

def isNameChar (c : Char) : Bool := c.isAlphanum || c = '_'

def parameter (quoted : Bool) : List Char → Piece × List Char
  | '\x7b' :: r =>
    (.parameter (r.takeWhile (· ≠ '\x7d')) quoted, (r.dropWhile (· ≠ '\x7d')).drop 1)
  | c :: r =>
    if c.isDigit || ['@', '*', '#', '?', '$'].contains c then (.parameter [c] quoted, r)
    else if isNameChar c then
      (.parameter ((c :: r).takeWhile isNameChar) quoted, (c :: r).dropWhile isNameChar)
    else (.text ['$'], c :: r)
  | [] => (.text ['$'], [])

def quotedPieces? : Nat → List Char → Option (Word × List Char)
  | 0, _ => none
  | _, [] => none
  | fuel + 1, c :: r =>
    if c = '"' then some ([], r)
    else if c = '$' then
      let (p, r) := parameter true r
      (quotedPieces? fuel r).map fun (w, r) => (p :: w, r)
    else if c = '\\' then
      match r with
      | d :: r =>
        let text := if ['$', '"', '\\', '\x60'].contains d then [d] else if d = '\n' then [] else ['\\', d]
        (quotedPieces? fuel r).map fun (w, r) => (.text text :: w, r)
      | [] => none
    else (quotedPieces? fuel r).map fun (w, r) => (.text [c] :: w, r)

def endsWord (c : Char) : Bool := [' ', '\t', '\n', ';', '&', '|', '<', '>', '(', ')'].contains c

def wordPieces? : Nat → List Char → Option (Word × List Char)
  | 0, _ => none
  | _, [] => some ([], [])
  | fuel + 1, c :: r =>
    if endsWord c then some ([], c :: r)
    else if c = '"' then do
      let (inner, r) ← quotedPieces? (r.length + 1) r
      let (w, r) ← wordPieces? fuel r
      return ((if inner.isEmpty then [.text []] else inner) ++ w, r)
    else if c = '\x27' then
      let inner := r.takeWhile (· ≠ '\x27')
      match r.dropWhile (· ≠ '\x27') with
      | _ :: r => (wordPieces? fuel r).map fun (w, r) => (.text inner :: w, r)
      | [] => none
    else if c = '\\' then
      match r with
      | '\n' :: r => wordPieces? fuel r
      | d :: r => (wordPieces? fuel r).map fun (w, r) => (.text [d] :: w, r)
      | [] => some ([.text ['\\']], [])
    else if c = '$' then
      let (p, r) := parameter false r
      (wordPieces? fuel r).map fun (w, r) => (p :: w, r)
    else (wordPieces? fuel r).map fun (w, r) => (.text [c] :: w, r)

def tokens? : Nat → List Char → Option (List Token)
  | 0, _ => none
  | _, [] => some []
  | fuel + 1, c :: r =>
    if c = ' ' ∨ c = '\t' then tokens? fuel r
    else if c = '#' then tokens? fuel (r.dropWhile (· ≠ '\n'))
    else if c = '\n' ∨ c = ';' then (tokens? fuel r).map (.stop :: ·)
    else match c, r with
      | '&', '&' :: r => (tokens? fuel r).map (.and :: ·)
      | '|', '|' :: r => (tokens? fuel r).map (.or :: ·)
      | '>', '>' :: r => (tokens? fuel r).map (.into true :: ·)
      | '>', r => (tokens? fuel r).map (.into false :: ·)
      | c, r =>
        if endsWord c then none
        else do
          let (w, r) ← wordPieces? (r.length + 2) (c :: r)
          let ts ← tokens? fuel r
          return .word w :: ts

def plainText? : Word → Option (List Char)
  | [] => some []
  | .text s :: w => (plainText? w).map (s ++ ·)
  | .parameter .. :: _ => none

end SweepReport.Script
