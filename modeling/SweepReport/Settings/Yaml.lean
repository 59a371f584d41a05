import SweepReport.Settings.Field
import SweepReport.Yaml

/-! Settings as YAML: a mapping whose entries override the defaults. Every scalar is a text, whatever
its tag. -/
namespace SweepReport.Settings
open Yaml (Leaf)

def hasSign : List Char → Bool
  | c :: _ => c = '+' || c = '-'
  | [] => false

def unsignedIn? (base : Nat) (cs : List Char) : Option UInt64 :=
  if hasSign cs then none else (Numeral.readWord base cs).toOption

/-- Digits with a zero too many in front are no number. -/
def isPadded (cs : List Char) : Bool :=
  1 < cs.length && cs.head? == some '0' && cs.all Numeral.isDigit

/-- A count in base ten, or in the base that its second character tells. -/
def countOf? (cs : List Char) : Option UInt64 :=
  let cs := match cs with
    | '+' :: r => r
    | r => r
  match cs with
  | '0' :: 'x' :: r => unsignedIn? 16 r
  | '0' :: 'o' :: r => unsignedIn? 8 r
  | '0' :: 'b' :: r => unsignedIn? 2 r
  | r => if isPadded r then none else unsignedIn? 10 r

/-- A finite decimal, or an infinity or no number by its name with a point in front. -/
def realOf? (s : String) : Option Float :=
  let unsigned := match s.toList with
    | '+' :: r => r
    | r => r
  let name := String.ofList unsigned
  if s.toList.head? == some '+' && hasSign unsigned then none
  else if [".inf", ".Inf", ".INF"].contains name then some (Numeral.infinity false)
  else if ["-.inf", "-.Inf", "-.INF"].contains s then some (Numeral.infinity true)
  else if [".nan", ".NaN", ".NAN"].contains s then some Numeral.notANumber
  else match Numeral.readFloat unsigned with
    | .ok x => if x.isFinite then some x else none
    | .error _ => none

def countTag : String := "tag:yaml.org,2002:int"
def realTag : String := "tag:yaml.org,2002:float"
def nothingTag : String := "tag:yaml.org,2002:null"

/-- Whether a scalar may be a number: a plain one, whatever its tag, or one of whole lines that is
tagged as one. -/
def isNumeral (tag : String) (s : Leaf) : Bool :=
  s.style = .plain || (s.style = .literal && s.tag = some tag)

def isNothing (s : String) : Bool := ["~", "null", "Null", "NULL"].contains s

/-- A path, or nothing: a plain scalar that is empty or says so. A tag makes it a path, but for the
tag of nothing, under which no path can stand. -/
def pathOf? (s : Leaf) : Option (Option String) :=
  if s.style ≠ .plain then some (some s.text)
  else match s.tag with
    | none => some (if s.text.isEmpty || isNothing s.text then none else some s.text)
    | some t =>
      if t ≠ nothingTag then some (some s.text)
      else if isNothing s.text then some none
      else none

def yamlValues : Settings.Values Leaf where
  text? s := some s.text
  degree? s := if isNumeral countTag s then countOf? s.text.toList else none
  step? s := if isNumeral realTag s then realOf? s.text else none
  optionalText? := pathOf?

def giveEntries? (s : Settings) (given : List Field) :
    List (Leaf × Leaf) → Option Settings
  | [] => some s
  | (k, v) :: es =>
    match Field.ofName? k.text with
    | none => none
    | some f =>
      if f ∈ given then none
      else match s.give? yamlValues f v with
        | none => none
        | some s => giveEntries? s (f :: given) es

/-- The settings in a YAML text, missing ones having their defaults. What follows the document is
looked at only if the settings can be read. -/
def ofYaml (text : String) : Except Yaml.Fault Settings := do
  let (d, rest) ← Yaml.firstDocument (Yaml.words text)
  let s ← Yaml.orMalformed (d.entries? >>= giveEntries? {} [])
  Yaml.checkOnly rest
  return s

end SweepReport.Settings
