import SweepReport.Label

/-! The order of labels. Thread counts that are numbers come first and by value; equal numbers, and
counts that are no numbers, go by their text. Labels go by thread count, then by batch size. -/
namespace SweepReport
open Std

/-- Counts that are no numbers share the rank above all words. -/
def ThreadCount.rank (t : ThreadCount) : Nat := (t.number?.map UInt64.toNat).getD Numeral.wordSize

instance : Ord ThreadCount where
  compare := compareLex (compareOn ThreadCount.rank) (compareOn ThreadCount.text)

instance : Ord Label where
  compare := compareLex (compareOn Label.threads) (compareOn Label.batch)

instance : TransOrd ThreadCount :=
  inferInstanceAs (TransCmp (compareLex (compareOn ThreadCount.rank) (compareOn ThreadCount.text)))

instance : TransOrd Label :=
  inferInstanceAs (TransCmp (compareLex (compareOn Label.threads) (compareOn Label.batch)))

/-- The text alone tells counts apart, so only equal counts compare equal. -/
instance : LawfulEqOrd ThreadCount where
  eq_of_compare {a b} h := by
    have ht : compare a.text b.text = .eq := (Ordering.then_eq_eq.mp h).2
    cases a; cases b
    simpa using LawfulEqOrd.eq_of_compare ht

instance : LawfulEqOrd Label where
  eq_of_compare {a b} h := by
    have h' := Ordering.then_eq_eq.mp h
    have ht : a.threads = b.threads := LawfulEqOrd.eq_of_compare h'.1
    have hb : a.batch = b.batch := LawfulEqOrd.eq_of_compare h'.2
    cases a; cases b
    simp_all

instance : LT Label := ltOfOrd

instance : LT ThreadCount := ltOfOrd

def Label.sort (ls : List Label) : List Label := ls.mergeSort fun a b => (compare a b).isLE

end SweepReport
