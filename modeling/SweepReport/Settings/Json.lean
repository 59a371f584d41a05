import SweepReport.Json.Reader
import SweepReport.Json.Writer
import SweepReport.Settings.Field

/-! Settings as JSON: an object whose members override the defaults, or an array of the settings in
their order, of which the last may be left out. -/
namespace SweepReport.Settings

inductive JsonFault where
  /-- It is not one JSON value. -/
  | malformed
  /-- A name is unknown or repeated, or a value is of the wrong type or out of range. -/
  | unfit
  deriving DecidableEq, Repr

def textOf? : Json → Option String
  | .text s => some s
  | _ => none

def degreeOf? : Json → Option UInt64
  | .number (.integer false n) => if n < Numeral.wordSize then some (UInt64.ofNat n) else none
  | _ => none

def stepOf? : Json → Option Float
  | .number n => some n.toFloat
  | _ => none

def optionalTextOf? : Json → Option (Option String)
  | .null => some none
  | v => (textOf? v).map some

def jsonValues : Settings.Values Json := ⟨textOf?, degreeOf?, stepOf?, optionalTextOf?⟩

/-- A broken value is a fault of the text whatever the setting expects. -/
def giveJson (s : Settings) (f : Field) (v : Json) : Except JsonFault Settings :=
  match v with
  | .broken => .error .malformed
  | v => (s.give? jsonValues f v).elim (.error .unfit) .ok

def giveMembers (s : Settings) (given : List Field) :
    List (String × Json) → Except JsonFault Settings
  | [] => .ok s
  | (k, v) :: ms =>
    match Field.ofName? k with
    | none => .error .unfit
    | some f =>
      if f ∈ given then .error .unfit
      else match giveJson s f v with
        | .error e => .error e
        | .ok s => giveMembers s (f :: given) ms

/-- Items for the settings in their order. An item too many is a fault of the text. -/
def giveItems (s : Settings) : List Field → List Json → Except JsonFault Settings
  | _, [] => .ok s
  | [], _ :: _ => .error .malformed
  | f :: fs, v :: vs =>
    match giveJson s f v with
    | .error e => .error e
    | .ok s => giveItems s fs vs

def ofJson : Json → Except JsonFault Settings
  | .broken => .error .malformed
  | .array items closed => giveItems {} Field.all items >>= whenClosed closed
  | .object members closed => giveMembers {} [] members >>= whenClosed closed
  | _ => .error .unfit
where
  whenClosed (closed : Bool) (s : Settings) : Except JsonFault Settings :=
    if closed then .ok s else .error .malformed

def decode (s : String) : Except JsonFault Settings :=
  let d := Json.read s
  match ofJson d.value with
  | .error e => .error e
  | .ok s => if d.ended then .ok s else .error .malformed

def paths (s : Settings) : List Path :=
  [s.resultsDir, s.samplesFile, s.plotScript, s.plotDataDir] ++ s.output.toList

def jsonOf (s : Settings) : Field → Json
  | .resultsDir => .text s.resultsDir.raw.lossy
  | .group => .text s.group
  | .runtimeDir => .text s.runtimeDir
  | .throughputDir => .text s.throughputDir
  | .samplesFile => .text s.samplesFile.raw.lossy
  | .fitDegree => .number (.integer false s.fitDegree.toNat)
  | .curveStep => .ofFloat s.curveStep
  | .interpreter => .text s.interpreter
  | .plotScript => .text s.plotScript.raw.lossy
  | .plotDataDir => .text s.plotDataDir.raw.lossy
  | .output => s.output.elim .null fun p => .text p.raw.lossy

/-- A path that is no text cannot be written. -/
def toJson? (s : Settings) : Option Json :=
  if s.paths.all (·.raw.text?.isSome) then some (.objectOf (Field.all.map fun f => (f.name, s.jsonOf f)))
  else none

end SweepReport.Settings
