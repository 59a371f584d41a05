/-! Records of fields divided by commas. A record ends at a line feed or a carriage return, and empty
lines are no records. A field that starts with a double quote runs to the next lone quote, and two
quotes stand for one; what follows the closing quote belongs to the field as it is. -/
namespace SweepReport.Delimited

abbrev Bytes := List UInt8

abbrev Record := List Bytes

def comma : UInt8 := 0x2c
def quote : UInt8 := 0x22

def endsLine (b : UInt8) : Bool := b = 0x0a || b = 0x0d

def byteOrderMark : Bytes := [0xef, 0xbb, 0xbf]

/-- What the next byte is read as. -/
inductive Mode where
  | recordStart
  | fieldStart
  | bare
  | quoted
  /-- After a quote within quotes, which closes them unless another follows. -/
  | afterQuote
  deriving DecidableEq, Repr

/-- A scan holds the fields of the record begun and the bytes of the field begun, both last first. -/
structure Scan where
  mode : Mode
  fields : List Bytes
  field : Bytes

namespace Scan

def start : Scan := ⟨.recordStart, [], []⟩

def record (s : Scan) : Record := (s.field.reverse :: s.fields).reverse

def push (s : Scan) (mode : Mode) (b : UInt8) : Scan := ⟨mode, s.fields, b :: s.field⟩

def endField (s : Scan) : Scan := ⟨.fieldStart, s.field.reverse :: s.fields, []⟩

/-- A byte outside of quotes, within a field or at its start: the scan goes on, or a record ends. -/
def bareStep (s : Scan) (b : UInt8) : Scan × Option Record :=
  if b = comma then (s.endField, none)
  else if endsLine b then (start, some s.record)
  else (s.push .bare b, none)

def step (s : Scan) (b : UInt8) : Scan × Option Record :=
  match s.mode with
  | .recordStart =>
    if endsLine b then (s, none)
    else if b = quote then ({ s with mode := .quoted }, none)
    else s.bareStep b
  | .fieldStart => if b = quote then ({ s with mode := .quoted }, none) else s.bareStep b
  | .bare => s.bareStep b
  | .quoted => if b = quote then ({ s with mode := .afterQuote }, none) else (s.push .quoted b, none)
  | .afterQuote => if b = quote then (s.push .quoted b, none) else s.bareStep b

def run (found : List Record) (s : Scan) : Bytes → List Record
  | [] => (if s.mode = .recordStart then found else s.record :: found).reverse
  | b :: bs =>
    match s.step b with
    | (s, none) => run found s bs
    | (s, some r) => run (r :: found) s bs

end Scan

def skipMark (bs : Bytes) : Bytes :=
  if byteOrderMark.isPrefixOf bs then bs.drop byteOrderMark.length else bs

def records (bs : Bytes) : List Record := Scan.start.run [] (skipMark bs)

def isByteBlank (b : UInt8) : Bool := b = 0x20 || b = 0x09 || b = 0x0a || b = 0x0c || b = 0x0d

def trim (bs : Bytes) : Bytes :=
  ((bs.dropWhile isByteBlank).reverse.dropWhile isByteBlank).reverse

end SweepReport.Delimited
