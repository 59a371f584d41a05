import SweepReport.Numeral.Binary
import SweepReport.Numeral.Word

/-! Decimals and the doubles they are read as. A literal is an optional sign, digits with an
optional point, and an optional exponent; `inf`, `infinity` and `nan` are read in any case. -/
namespace SweepReport.Numeral

/-- Plus or minus `digits * 10 ^ exponent`. -/
structure Decimal where
  negative : Bool
  digits : Nat
  exponent : Int
  deriving DecidableEq, Repr

/-- Beyond this power of ten every decimal is infinite or, downward, zero. -/
def exponentReach : Int := 400

def Decimal.code (d : Decimal) : Nat :=
  let length : Int := (Nat.toDigits 10 d.digits).length
  if d.digits = 0 ∨ d.exponent + length < -exponentReach then 0
  else if exponentReach < d.exponent + length then infinityCode
  else nearestCode (d.digits * Nat.pow 10 d.exponent.toNat) (Nat.pow 10 (-d.exponent).toNat)

def Decimal.toFloat (d : Decimal) : Float := floatOfCode d.negative d.code

def infinity (negative : Bool) : Float := floatOfCode negative infinityCode

def notANumber : Float := 0.0 / 0.0

inductive FloatFault where
  | empty
  | invalid
  deriving DecidableEq, Repr

def digitsValue (cs : List Char) : Nat :=
  cs.foldl (fun n c => n * 10 + (c.toNat - '0'.toNat)) 0

def readExponent? (cs : List Char) : Option Int :=
  let (negative, ds) := match cs with
    | '-' :: r => (true, r)
    | '+' :: r => (false, r)
    | r => (false, r)
  if ds.isEmpty || !ds.all isDigit then none
  else some (if negative then -(digitsValue ds : Int) else digitsValue ds)

/-- Digits with a point somewhere among them or beside them, then an exponent. -/
def readUnsigned? (negative : Bool) (cs : List Char) : Option Decimal :=
  let whole := cs.takeWhile isDigit
  let rest := cs.dropWhile isDigit
  let (fraction, rest) := match rest with
    | '.' :: r => (r.takeWhile isDigit, r.dropWhile isDigit)
    | r => ([], r)
  let digits := whole ++ fraction
  let places : Int := fraction.length
  if digits.isEmpty then none
  else match rest with
    | [] => some ⟨negative, digitsValue digits, -places⟩
    | c :: r =>
      if c = 'e' ∨ c = 'E' then
        (readExponent? r).map fun e => ⟨negative, digitsValue digits, e - places⟩
      else none

def readMagnitude (negative : Bool) (cs : List Char) : Except FloatFault Float :=
  let word := cs.map Char.toLower
  if word = "inf".toList ∨ word = "infinity".toList then .ok (infinity negative)
  else if word = "nan".toList then .ok notANumber
  else match readUnsigned? negative cs with
    | some d => .ok d.toFloat
    | none => .error .invalid

def readFloat (cs : List Char) : Except FloatFault Float :=
  match cs with
  | [] => .error .empty
  | '-' :: r => readMagnitude true r
  | '+' :: r => readMagnitude false r
  | r => readMagnitude false r

end SweepReport.Numeral
