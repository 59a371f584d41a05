/-! Unsigned 64-bit words written with digits of a base. A plus sign may lead; a minus sign is no
digit. The first character that is no digit, or that leaves the range, decides the fault. -/
namespace SweepReport.Numeral

inductive WordFault where
  | empty
  | badDigit
  | tooLarge
  deriving DecidableEq, Repr

def isDigit (c : Char) : Bool := '0' ≤ c && c ≤ '9'

def digitValue? (base : Nat) (c : Char) : Option Nat :=
  let value :=
    if '0' ≤ c ∧ c ≤ '9' then c.toNat - '0'.toNat
    else if 'a' ≤ c ∧ c ≤ 'f' then c.toNat - 'a'.toNat + 10
    else if 'A' ≤ c ∧ c ≤ 'F' then c.toNat - 'A'.toNat + 10
    else 16
  if value < base then some value else none

def wordSize : Nat := UInt64.size

def readDigits (base : Nat) : Nat → List Char → Except WordFault Nat
  | value, [] => .ok value
  | value, c :: cs =>
    match digitValue? base c with
    | none => .error .badDigit
    | some d =>
      if value * base + d < wordSize then readDigits base (value * base + d) cs
      else .error .tooLarge

def readWord (base : Nat) (cs : List Char) : Except WordFault UInt64 :=
  match cs with
  | [] => .error .empty
  | ['+'] => .error .badDigit
  | '+' :: cs => UInt64.ofNat <$> readDigits base 0 cs
  | cs => UInt64.ofNat <$> readDigits base 0 cs

def word? (s : String) : Option UInt64 := (readWord 10 s.toList).toOption

def decimalText (n : Nat) : List Char := Nat.toDigits 10 n

end SweepReport.Numeral
