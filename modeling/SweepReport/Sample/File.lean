import SweepReport.Problem
import SweepReport.Journal

/-! Files of samples: a header row, then a sample a row. -/
namespace SweepReport

def samplesOfRows (header : List String) (number : Nat) :
    List Delimited.Record → Except Malformed (List (Sample Float))
  | [] => .ok []
  | r :: rs =>
    match sampleOfRow header r with
    | .error fault => .error (.row number fault)
    | .ok s => (s :: ·) <$> samplesOfRows header (number + 1) rs

/-- The samples of a table. A table without rows has an empty header. -/
def samplesOfTable (table : List Delimited.Record) : Except Malformed (List (Sample Float)) :=
  match headerOf (table.headD []) with
  | .error fault => .error (.header (.encoding fault))
  | .ok header =>
    match Column.missing header with
    | [] => samplesOfRows header 1 table.tail
    | names => .error (.missingColumns names)

def samplesOfBytes (content : ByteArray) : Except Malformed (List (Sample Float)) :=
  samplesOfTable (Delimited.records content.toList)

def samplesIn (t : FileTree) (p : Path) : Except Problem (List (Sample Float)) :=
  match t.fetch p with
  | .error cause => .error (.io p cause)
  | .ok .folder => .error (.malformed p (.header (.io .isFolder)))
  | .ok (.file content) => (samplesOfBytes content).mapError (.malformed p)

def readSamples (t : FileTree) (p : Path) : Noted Problem (List (Sample Float)) := do
  let samples ← .ofExcept (samplesIn t p)
  .note .debug .samples s!"Read {samples.length} samples from {p.quoted}"
  return samples

end SweepReport
