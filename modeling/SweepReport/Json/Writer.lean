import SweepReport.Json

/-! JSON values written without a blank. Strings escape quotes, backslashes and the characters below
the space; numbers that are not integers always show a point or an exponent. -/
namespace SweepReport.Json

def controlEscape (n : Nat) : List Char :=
  "\\u00".toList ++ [Nat.digitChar (n / 16), Nat.digitChar (n % 16)]

def escapeChar (c : Char) : List Char :=
  match c with
  | '"' => "\\\"".toList
  | '\\' => "\\\\".toList
  | '\x08' => "\\b".toList
  | '\x0c' => "\\f".toList
  | '\n' => "\\n".toList
  | '\r' => "\\r".toList
  | '\t' => "\\t".toList
  | c => if c.toNat < 0x20 then controlEscape c.toNat else [c]

def stringChars (s : String) : List Char := '"' :: s.toList.flatMap escapeChar ++ ['"']

def numberChars : Number → List Char
  | .integer negative value => Numeral.withSign negative (Numeral.decimalText value)
  | .decimal d => Numeral.scientific window d.negative d.digits d.exponent

mutual

def chars : Json → List Char
  | null => "null".toList
  | bool true => "true".toList
  | bool false => "false".toList
  | number n => numberChars n
  | text s => stringChars s
  | array items closed => '[' :: itemChars items ++ if closed then [']'] else []
  | object members closed => '\x7b' :: memberChars members ++ if closed then ['\x7d'] else []
  | broken => []

def itemChars : List Json → List Char
  | [] => []
  | [v] => chars v
  | v :: vs => chars v ++ ',' :: itemChars vs

def memberChars : List (String × Json) → List Char
  | [] => []
  | [(k, v)] => stringChars k ++ ':' :: chars v
  | (k, v) :: ms => stringChars k ++ ':' :: chars v ++ ',' :: memberChars ms

end

def render (v : Json) : String := String.ofList v.chars

end SweepReport.Json
