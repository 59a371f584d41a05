import SweepReport.Sample
import SweepReport.Delimited
import SweepReport.Text.Blank
import SweepReport.Text.Utf8
import SweepReport.Numeral.Decimal

/-! Samples read from the rows of a table. Columns go by their names in the header, and those of
other names are passed over. Cells are read in the order of the columns, so the first bad one is the
fault of its row. -/
namespace SweepReport

inductive CellFault where
  | float (fault : Numeral.FloatFault)
  | word (fault : Numeral.WordFault)
  deriving DecidableEq, Repr

def CellFault.message : CellFault → String
  | .float .empty => "cannot parse float from empty string"
  | .float .invalid => "invalid float literal"
  | .word .empty => "cannot parse integer from empty string"
  | .word .badDigit => "invalid digit found in string"
  | .word .tooLarge => "number too large to fit in target type"

/-- A field whose bytes are no text from a position on. -/
structure EncodingFault where
  field : Nat
  position : Nat
  deriving DecidableEq, Repr

def EncodingFault.message (e : EncodingFault) : String :=
  s!"CSV parse error: invalid utf-8: invalid UTF-8 in field {e.field} near byte index {e.position}"

inductive RowFault where
  | width (found expected : Nat)
  | encoding (fault : EncodingFault)
  | repeatedColumn (name : String)
  | missingColumn (name : String)
  | cell (column : Nat) (fault : CellFault)
  | noIterations
  deriving DecidableEq, Repr

def RowFault.message : RowFault → String
  | .width found expected =>
    s!"CSV error: found record with {found} fields, but the previous record has {expected} fields"
  | .encoding fault => fault.message
  | .repeatedColumn name => "CSV deserialize error: duplicate field `" ++ name ++ "`"
  | .missingColumn name => "CSV deserialize error: missing field `" ++ name ++ "`"
  | .cell column fault => s!"CSV deserialize error: field {column}: " ++ fault.message
  | .noIterations => "iteration_count must be positive"

namespace Column

def label : String := "value"
def elapsed : String := "sample_measured_value"
def iterations : String := "iteration_count"
def records : String := "throughput_num"

def required : List String := [label, elapsed, iterations]

def missing (header : List String) : List String := required.filter (!header.contains ·)

end Column

def textsOf (index : Nat) : Delimited.Record → Except EncodingFault (List String)
  | [] => .ok []
  | field :: fields =>
    match Text.decode field with
    | .error position => .error ⟨index, position⟩
    | .ok s => (s :: ·) <$> textsOf (index + 1) fields

def trimText (s : String) : String := String.ofList (Text.trim s.toList)

def headerOf (r : Delimited.Record) : Except EncodingFault (List String) :=
  (·.map trimText) <$> textsOf 0 r

def cellsOf (width : Nat) (r : Delimited.Record) : Except RowFault (List String) :=
  if r.length ≠ width then .error (.width r.length width)
  else match textsOf 0 (r.map Delimited.trim) with
    | .error fault => .error (.encoding fault)
    | .ok cells => .ok (cells.map trimText)

def readFloatCell (cell : String) : Except CellFault Float :=
  (Numeral.readFloat cell.toList).mapError .float

def readWordCell (cell : String) : Except CellFault UInt64 :=
  (match cell.toList with
    | '0' :: 'x' :: r => Numeral.readWord 16 r
    | r => Numeral.readWord 10 r).mapError .word

structure Draft where
  label : Option String := none
  elapsed : Option Float := none
  iterations : Option UInt64 := none
  records : Option (Option Float) := none

namespace Draft

def keep {β : Type} (column : Nat) (name : String) (old : Option β) (new : Except CellFault β)
    (put : β → Draft) : Except RowFault Draft :=
  if old.isSome then .error (.repeatedColumn name)
  else match new with
    | .error fault => .error (.cell column fault)
    | .ok value => .ok (put value)

def add (d : Draft) (column : Nat) (name cell : String) : Except RowFault Draft :=
  if name = Column.label then
    keep column name d.label (.ok cell) fun v => { d with label := some v }
  else if name = Column.elapsed then
    keep column name d.elapsed (readFloatCell cell) fun v => { d with elapsed := some v }
  else if name = Column.iterations then
    keep column name d.iterations (readWordCell cell) fun v => { d with iterations := some v }
  else if name = Column.records then
    keep column name d.records
      (if cell.isEmpty then .ok none else some <$> readFloatCell cell)
      fun v => { d with records := some v }
  else .ok d

def addAll (d : Draft) (column : Nat) : List (String × String) → Except RowFault Draft
  | [] => .ok d
  | (name, cell) :: rest =>
    match d.add column name cell with
    | .error e => .error e
    | .ok d => addAll d (column + 1) rest

/-- Without a column of records there is no record count. -/
def finish (d : Draft) : Except RowFault (Sample Float) :=
  match d.label, d.elapsed, d.iterations with
  | some label, some elapsed, some iterations =>
    .ok ⟨label, elapsed, iterations, d.records.join⟩
  | none, _, _ => .error (.missingColumn Column.label)
  | _, none, _ => .error (.missingColumn Column.elapsed)
  | _, _, none => .error (.missingColumn Column.iterations)

end Draft

def sampleOfCells (header cells : List String) : Except RowFault (Sample Float) :=
  match Draft.addAll {} 0 (header.zip cells) with
  | .error e => .error e
  | .ok d =>
    match d.finish with
    | .error e => .error e
    | .ok s => if s.iterations = 0 then .error .noIterations else .ok s

def sampleOfRow (header : List String) (r : Delimited.Record) : Except RowFault (Sample Float) :=
  match cellsOf header.length r with
  | .error e => .error e
  | .ok cells => sampleOfCells header cells

end SweepReport
