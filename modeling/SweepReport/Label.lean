import SweepReport.Numeral.Word

/-! The configuration a benchmark ran with: how many threads, and how many files in a batch. The
thread count keeps the text it was given, so `2` and `02` are two counts. -/
namespace SweepReport

structure ThreadCount where
  text : String
  deriving DecidableEq, Repr

def ThreadCount.number? (t : ThreadCount) : Option UInt64 := Numeral.word? t.text

structure Label where
  threads : ThreadCount
  batch : UInt64
  deriving DecidableEq, Repr

namespace Label

def of (threads : String) (batch : UInt64) : Label := ⟨⟨threads⟩, batch⟩

def unit : List Char := "files".toList

def chars (l : Label) : List Char :=
  l.threads.text.toList ++ ", ".toList ++ Numeral.decimalText l.batch.toNat ++ ' ' :: unit

def text (l : Label) : String := String.ofList l.chars

end Label
end SweepReport
