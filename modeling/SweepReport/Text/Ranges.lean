/-! Sets of code points as ranges, ascending and disjoint. -/
namespace SweepReport.Text

/-- Whether ascending ranges hold the number; the first that does not end before it decides. -/
def isWithin (n : Nat) : List (Nat × Nat) → Bool
  | [] => false
  | (first, last) :: rs => if n ≤ last then first ≤ n else isWithin n rs

end SweepReport.Text
