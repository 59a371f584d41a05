import SweepReport.Numeral.Decimal
import SweepReport.Numeral.Shortest
import SweepReport.Numeral.Word

/-! Texts of floats. `plain` writes the shortest digits without an exponent, as messages do; `fixed`
rounds to a number of places, as tables do; `scientific` writes an exponent outside a window, as
plot data does. -/
namespace SweepReport.Numeral

/-- Puts the point before the last `places` digits, with zeros in front where digits are missing. -/
def placePoint (digits : List Char) (places : Nat) : List Char :=
  let padded := List.replicate (places + 1 - digits.length) '0' ++ digits
  let whole := padded.take (padded.length - places)
  if places = 0 then whole else whole ++ '.' :: padded.drop (padded.length - places)

def withSign (negative : Bool) (cs : List Char) : List Char := if negative then '-' :: cs else cs

def wordOf (x : Float) : List Char :=
  if x.isNaN then "NaN".toList else withSign (isNegative x) "inf".toList

def plain (x : Float) : String :=
  String.ofList <|
    if x.isFinite then
      let (d, k) := shortest .up (codeOf x)
      withSign (isNegative x) <|
        if 0 ≤ k then decimalText (d * Nat.pow 10 k.toNat)
        else placePoint (decimalText d) (-k).toNat
    else wordOf x

/-- The exact value rounded to so many places, a half going to the even digit. -/
def fixed (places : Nat) (x : Float) : String :=
  String.ofList <|
    if x.isFinite then
      let (d, k) := exactDigits (codeOf x)
      let scaled := roundDiv (d * Nat.pow 10 (k + places).toNat) (Nat.pow 10 (-(k + places)).toNat)
      withSign (isNegative x) (placePoint (decimalText scaled) places)
    else wordOf x

/-- Exponents of the leading digit that are written without an exponent. -/
structure Window where
  first : Int
  last : Int

def exponentText (digits : List Char) (lead : Int) : List Char :=
  let head := match digits with
    | d :: r@(_ :: _) => d :: '.' :: r
    | r => r
  head ++ 'e' :: (if lead < 0 then '-' else '+') :: decimalText lead.natAbs

def scientific (window : Window) (negative : Bool) (d : Nat) (k : Int) : List Char :=
  let digits := decimalText d
  let lead := k + digits.length - 1
  withSign negative <|
    if d = 0 then "0.0".toList
    else if window.first ≤ lead ∧ lead ≤ window.last then
      if 0 ≤ k then decimalText (d * Nat.pow 10 k.toNat) ++ ".0".toList
      else placePoint digits (-k).toNat
    else exponentText digits lead

end SweepReport.Numeral
