import SweepReport.Numeral.Layout

/-! JSON values. A value that was read from a text with a fault in it is broken where the fault is and
holds nothing after it, so that who looks at the parts in order meets the fault in its turn. -/
namespace SweepReport

/-- Numbers keep whether they were written as integers. -/
inductive Json.Number where
  | integer (negative : Bool) (value : Nat)
  | decimal (d : Numeral.Decimal)
  deriving DecidableEq, Repr

inductive Json where
  | null
  | bool (value : Bool)
  | number (n : Json.Number)
  | text (value : String)
  /-- An array or object is closed when its closing bracket was reached. -/
  | array (items : List Json) (closed : Bool)
  | object (members : List (String × Json)) (closed : Bool)
  | broken

namespace Json

def Number.toFloat : Number → Float
  | integer negative value => Numeral.Decimal.toFloat ⟨negative, value, 0⟩
  | decimal d => d.toFloat

/-- Exponents from which numbers are written with one: below `-5` and above `15`. -/
def window : Numeral.Window := ⟨-5, 15⟩

/-- A float by its shortest digits. What is no finite number has no digits. -/
def ofFloat (x : Float) : Json :=
  if x.isFinite then
    let (d, k) := Numeral.shortest .even (Numeral.codeOf x)
    number (.decimal ⟨Numeral.isNegative x, d, k⟩)
  else null

def ofPoints (ps : List (Float × Float)) : Json :=
  array (ps.map fun p => array [ofFloat p.1, ofFloat p.2] true) true

def arrayOf (items : List Json) : Json := array items true

def objectOf (members : List (String × Json)) : Json := object members true

end Json
end SweepReport
