import SweepReport.Scalar

/-! Least and greatest of a list, found pair by pair: the smaller of two neighbours meets the least
so far, and the greater the greatest. Numbers that do not compare go where that leaves them. -/
namespace SweepReport
variable {α : Type} [Scalar α]
open Scalar (lt)

/-- The two in order, or as they stand when the second is not smaller. -/
@[inline] def inOrder (x y : α) : α × α := if lt y x then (y, x) else (x, y)

@[specialize] def rangeFrom (least greatest : α) : List α → α × α
  | [] => (least, greatest)
  | [x] =>
    if lt x least then (x, greatest)
    else if lt x greatest then (least, greatest)
    else (least, x)
  | x :: y :: rest =>
    let (small, large) := inOrder x y
    rangeFrom (if lt small least then small else least)
      (if lt large greatest then greatest else large) rest

@[specialize] def range? : List α → Option (α × α)
  | [] => none
  | [x] => some (x, x)
  | x :: y :: rest =>
    let (small, large) := inOrder x y
    some (rangeFrom small large rest)

@[specialize] def distinct : List α → List α
  | [] => []
  | x :: xs => if xs.any (Scalar.isSame x) then distinct xs else x :: distinct xs

end SweepReport
