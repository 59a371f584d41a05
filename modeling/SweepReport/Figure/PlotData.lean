import SweepReport.Figure
import SweepReport.Json.Reader
import SweepReport.Json.Writer

/-! Plot data: figures as JSON. A number that is not finite is written as `null`; a figure without
such numbers is read back as it was. -/
namespace SweepReport

def Series.toJson (s : Series Float) : Json :=
  .objectOf [("label", .text s.label), ("points", .ofPoints s.points), ("curve", .ofPoints s.curve)]

def Panel.toJson (p : Panel Float) : Json :=
  .objectOf [("title", .text p.title), ("x_label", .text p.xLabel), ("y_label", .text p.yLabel),
    ("x_max", .ofFloat p.xMax), ("y_min", .ofFloat p.yMin), ("y_max", .ofFloat p.yMax),
    ("series", .arrayOf (p.series.map Series.toJson))]

def Figure.toJson (f : Figure Float) : Json :=
  .objectOf [("name", .text f.name), ("panels", .arrayOf (f.panels.map Panel.toJson))]

def Figure.plotData (f : Figure Float) : String := f.toJson.render

namespace Json

def asText? : Json → Option String
  | text s => some s
  | _ => none

def asFloat? : Json → Option Float
  | number n => some n.toFloat
  | _ => none

def asList? : Json → Option (List Json)
  | array items true => some items
  | _ => none

/-- The value of a member; of several with the name, the first. -/
def member? (name : String) : Json → Option Json
  | object members true => (members.find? (·.1 = name)).map Prod.snd
  | _ => none

def asPoint? : Json → Option (Float × Float)
  | array [x, y] true => do
    let x ← asFloat? x
    let y ← asFloat? y
    return (x, y)
  | _ => none

def textMember? (name : String) (v : Json) : Option String := v.member? name >>= asText?

def floatMember? (name : String) (v : Json) : Option Float := v.member? name >>= asFloat?

def listMember? {β : Type} (name : String) (read : Json → Option β) (v : Json) : Option (List β) := do
  let items ← v.member? name >>= asList?
  items.mapM read

end Json

def Series.ofJson? (v : Json) : Option (Series Float) := do
  let label ← v.textMember? "label"
  let points ← v.listMember? "points" Json.asPoint?
  let curve ← v.listMember? "curve" Json.asPoint?
  return { label, points, curve }

def Panel.ofJson? (v : Json) : Option (Panel Float) := do
  let title ← v.textMember? "title"
  let xLabel ← v.textMember? "x_label"
  let yLabel ← v.textMember? "y_label"
  let xMax ← v.floatMember? "x_max"
  let yMin ← v.floatMember? "y_min"
  let yMax ← v.floatMember? "y_max"
  let series ← v.listMember? "series" Series.ofJson?
  return { title, xLabel, yLabel, xMax, yMin, yMax, series }

def Figure.ofJson? (v : Json) : Option (Figure Float) := do
  let name ← v.textMember? "name"
  let panels ← v.listMember? "panels" Panel.ofJson?
  return { name, panels }

def Figure.ofPlotData? (s : String) : Option (Figure Float) :=
  let d := Json.read s
  if d.ended then Figure.ofJson? d.value else none

end SweepReport
