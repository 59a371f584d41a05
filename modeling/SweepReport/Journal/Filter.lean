import SweepReport.Journal.Directive

/-! Which events are kept. Of the directives that speak of an event's source the most particular one
decides: that with the longest target, then with most fields. -/
namespace SweepReport

/-- Directives that depend on spans or on the values of fields never speak of an event here, which
happens outside of spans. -/
def Directive.isStatic (d : Directive) : Bool :=
  d.span.isNone && d.fields.all (!·.toList.contains '=')

def eventField : String := "message"

namespace Filter

def precedes (a b : Directive) : Bool :=
  let size (d : Directive) : Nat := (d.target.map (·.utf8ByteSize + 1)).getD 0
  if size a ≠ size b then size b < size a
  else if a.fields.length ≠ b.fields.length then b.fields.length < a.fields.length
  else match compare (a.target.getD "") (b.target.getD "") with
    | .gt => true
    | .lt => false
    | .eq => b.fields < a.fields

def concerns (a b : Directive) : Bool := a.target = b.target && a.fields = b.fields

/-- Puts a directive before the first it precedes, in the stead of one for the same events. -/
def add (d : Directive) : List Directive → List Directive
  | [] => [d]
  | e :: es =>
    if concerns d e then d :: es
    else if precedes d e then d :: e :: es
    else e :: add d es

def build (ds : List Directive) : List Directive :=
  (ds.filter Directive.isStatic).foldl (fun fs d => add d fs) []

/-- Whether a directive speaks of events of a source. A target speaks of every source whose name it
starts. -/
def covers (d : Directive) (source : String) : Bool :=
  (d.target.map fun t => t.toList.isPrefixOf source.toList).getD true &&
    d.fields.all (· = eventField)

def keeps (fs : List Directive) (e : Event) : Bool :=
  match fs.find? (covers · e.source.name) with
  | some d => Threshold.keeps d.threshold e.level
  | none => false

end Filter

/-- The library modules, whose level is the default one unless a directive's text starts with their
name. -/
def libraryModules : List String := ["batched_analysis", "criterion_raw", "common"]

/-- The directives of the filter, in the order they are added: the program's level, those given, and
the levels of the modules that none given starts with. -/
def filterDirectives (level : Threshold) (given : List String) :
    Except DirectiveFault (List Directive) := do
  let parsed ← given.mapM Directive.ofText
  let defaults := libraryModules.filter fun m => !given.any fun g => m.toList.isPrefixOf g.toList
  return .forTarget Source.command.name level :: parsed ++ defaults.map (.forTarget · level)

end SweepReport
