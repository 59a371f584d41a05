/-! Double-precision numbers as codes. The non-negative doubles, infinity last, are numbered from
zero upward by `code = e * 2 ^ 52 + m`, the double being `m * 2 ^ e` units of the last place of the
smallest ones. So the code of a double is its bit pattern without the sign. -/
namespace SweepReport.Numeral

def fractionSize : Nat := Nat.pow 2 52

/-- Units of `2 ^ (-1074)` in one. -/
def unitExponent : Nat := 1074

def infinityCode : Nat := 0x7ff0000000000000

def signBit : UInt64 := 0x8000000000000000

def codeExponent (code : Nat) : Nat := code / fractionSize - 1

def codeSignificand (code : Nat) : Nat := code - codeExponent code * fractionSize

/-- The quotient rounded to the nearest whole number, a half to the even one. -/
def roundDiv (num den : Nat) : Nat :=
  let q := num / den
  let r := num % den
  if 2 * r < den then q
  else if den < 2 * r then q + 1
  else q + q % 2

/-- The exponent at which the ratio has a significand of 53 bits, or zero below that. -/
def ratioExponent (num den : Nat) : Nat :=
  let e := num.log2 + unitExponent - den.log2 - 53
  if 2 * fractionSize * Nat.pow 2 e * den ≤ num * Nat.pow 2 unitExponent then e + 1 else e

/-- The code of the double nearest to `num / den`, a half going to the even code. -/
def nearestCode (num den : Nat) : Nat :=
  if num = 0 then 0
  else
    let e := ratioExponent num den
    let m := roundDiv (num * Nat.pow 2 unitExponent) (den * Nat.pow 2 e)
    min (e * fractionSize + m) infinityCode

def codeOf (x : Float) : Nat := (x.toBits &&& ~~~signBit).toNat

def isNegative (x : Float) : Bool := x.toBits &&& signBit != 0

def floatOfCode (negative : Bool) (code : Nat) : Float :=
  Float.ofBits (if negative then signBit ||| code.toUInt64 else code.toUInt64)

end SweepReport.Numeral
