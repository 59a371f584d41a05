import SweepReport.Numeral.Binary

/-! The shortest decimal that reads back to a double: on the coarsest grid of a power of ten with a
point in the interval that rounds to the double, the point nearest to it. A coarser grid holds every
tenth point of a finer one, so the points of a fine grid tell which grids have one. -/
namespace SweepReport.Numeral

/-- Where a double lies between two grid points exactly, which one stands for it. -/
inductive Tie where
  | up
  | even
  deriving DecidableEq, Repr

/-- The doubles around a code in quarters of its last place: the code itself and both ends of the
interval that rounds to it. The ends belong to it when the significand is even. -/
structure Spread where
  low : Nat
  mid : Nat
  high : Nat
  closed : Bool

/-- Below a power of two the doubles lie twice as close. -/
def spread (code : Nat) : Spread :=
  let m := codeSignificand code
  { low := if m = fractionSize ∧ codeExponent code ≠ 0 then 4 * m - 1 else 4 * m - 2
    mid := 4 * m
    high := 4 * m + 2
    closed := m % 2 == 0 }

def Spread.contains (s : Spread) (scale point : Nat) : Bool :=
  if s.closed then s.low * scale ≤ point && point ≤ s.high * scale
  else s.low * scale < point && point < s.high * scale

/-- `q` with quarters of the last place counted as `2 ^ q`. -/
def quarterExponent (code : Nat) : Int := (codeExponent code : Int) - unitExponent - 2

/-- Of two neighbouring grid points, so far below and above the double, the nearer one that rounds to
it. -/
def nearer? (tie : Tie) (d below above : Nat) : Bool → Bool → Option Nat
  | false, false => none
  | true, false => some d
  | false, true => some (d + 1)
  | true, true =>
    if below < above then some d
    else if above < below then some (d + 1)
    else match tie with
      | .up => some (d + 1)
      | .even => some (d + d % 2)

def gridScale (code : Nat) (k : Int) : Nat :=
  Nat.pow 2 (quarterExponent code).toNat * Nat.pow 10 (-k).toNat

def gridPitch (code : Nat) (k : Int) : Nat :=
  Nat.pow 2 (-quarterExponent code).toNat * Nat.pow 10 k.toNat

/-- The digits on the grid of `10 ^ k`, when a grid point beside the double rounds to it. -/
def digitsOn? (tie : Tie) (code : Nat) (k : Int) : Option Nat :=
  let scale := gridScale code k
  let pitch := gridPitch code k
  let s := spread code
  let d := s.mid * scale / pitch
  nearer? tie d (s.mid * scale - d * pitch) ((d + 1) * pitch - s.mid * scale)
    (s.contains scale (d * pitch)) (s.contains scale ((d + 1) * pitch))

def pointsOn (code : Nat) (k : Int) : Nat × Nat :=
  let scale := gridScale code k
  let pitch := gridPitch code k
  let s := spread code
  if s.closed then ((s.low * scale + pitch - 1) / pitch, s.high * scale / pitch)
  else (s.low * scale / pitch + 1, (s.high * scale - 1) / pitch)

/-- From the points on the grid of `10 ^ k` to the coarsest grid that keeps one of them. -/
def coarsest (first last : Nat) (k : Int) : Int :=
  if 0 < last ∧ (first + 9) / 10 ≤ last / 10 then coarsest ((first + 9) / 10) (last / 10) (k + 1)
  else k
termination_by last

def exactDigits (code : Nat) : Nat × Int :=
  let q := quarterExponent code
  let m := 4 * codeSignificand code
  if 0 ≤ q then (m * Nat.pow 2 q.toNat, 0) else (m * Nat.pow 5 (-q).toNat, q)

/-- A power of ten below a quarter of the last place; `log 2` is `30103 / 100000`, rounded up. -/
def fineGrid (code : Nat) : Int := quarterExponent code * 30103 / 100000

def digitGrid (code : Nat) : Int :=
  let (first, last) := pointsOn code (fineGrid code)
  coarsest first last (fineGrid code)

def orExact (code : Nat) (k : Int) : Option Nat → Nat × Int
  | some d => (d, k)
  | none => exactDigits code

def shortest (tie : Tie) (code : Nat) : Nat × Int :=
  if code = 0 then (0, 0)
  else orExact code (digitGrid code) (digitsOn? tie code (digitGrid code))

end SweepReport.Numeral
