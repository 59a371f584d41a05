import SweepReport.Text.OsString

/-! Paths as strings of the system. A slash divides the parts, and a path that starts with one is
absolute. -/
namespace SweepReport

structure Path where
  raw : OsString
  deriving DecidableEq, Repr

namespace Path

def ofText (s : String) : Path := ⟨s⟩

def slash : UInt8 := 0x2f

def bytes (p : Path) : List UInt8 := p.raw.bytes

def isAbsolute (p : Path) : Bool := p.bytes.head? == some slash

def endsInSlash (p : Path) : Bool := p.bytes.getLast? == some slash

def join (p q : Path) : Path :=
  if q.isAbsolute || p.raw.isEmpty then q
  else if p.endsInSlash then ⟨p.raw ++ q.raw⟩
  else ⟨p.raw ++ "/" ++ q.raw⟩

instance : Div Path := ⟨join⟩

/-- The stretches between slashes; the first argument is the stretch begun, last byte first. -/
def splitSlash : List UInt8 → List UInt8 → List (List UInt8)
  | part, [] => [part.reverse]
  | part, b :: bs => if b = slash then part.reverse :: splitSlash [] bs else splitSlash (b :: part) bs

def parts (p : Path) : List OsString :=
  ((splitSlash [] p.bytes).filter (!·.isEmpty)).map OsString.mk

def here : OsString := "."

def up : OsString := ".."

def fileName (p : Path) : OsString :=
  match (p.parts.filter (· ≠ here)).getLast? with
  | some name => if name = up then "" else name
  | none => ""

def quoted (p : Path) : String := p.raw.quoted

end Path
end SweepReport
