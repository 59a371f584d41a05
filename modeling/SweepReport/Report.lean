import SweepReport.Collection
import SweepReport.Figure.Sketch

/-! The report: metrics of all configurations, composed to a figure and handed to what draws it. -/
namespace SweepReport

/-- Why there is no report; `ε` is how drawing fails. -/
inductive Failure (ε : Type) where
  | badStep (step : Float)
  | collecting (group : Path) (cause : Problem)
  | composing (cause : FigureFault)
  | drawing (cause : ε)

namespace Failure
variable {ε : Type}

def drawingMessage : String := "Render batched analysis report"

/-- From the outermost message to the root cause, given that of drawing. There is none of a report that
is never done. -/
def chain? (drawn : ε → List String) : Failure ε → Option (List String)
  | badStep step => some ["curve_step must be positive, got " ++ Numeral.plain step]
  | collecting group cause =>
    some (("Collect benchmark results in " ++ group.quoted) :: cause.chain)
  | composing cause => cause.message?.map fun message => [drawingMessage, message]
  | drawing cause => some (drawingMessage :: drawn cause)

def problem? : Failure ε → Option Problem
  | collecting _ cause => some cause
  | _ => none

end Failure

variable {σ ε : Type}

def checkStep (s : Settings) : Except (Failure ε) Unit :=
  if isStep s.curveStep then .ok () else .error (.badStep s.curveStep)

def reportTable (t : FileTree) (s : Settings) : Noted (Failure ε) (ResultTable Float) := do
  .ofExcept (checkStep s)
  .note .debug .analysis ("Collecting metrics from " ++ s.groupDir.quoted)
  (gatherTable t s).mapError (.collecting s.groupDir)

abbrev Backend (σ ε : Type) := Figure Float → σ → σ × Noted ε Unit

def composeEvents (t : ResultTable Float) (k : Sketch Float) : List Event :=
  let size := ResultTable.size t
  let sweeps := (k.head?.map (·.fitted.length)).getD 0
  k.notes.map (fun n => ⟨.debug, .trend, n.message⟩) ++
    [⟨.info, .figure, s!"Rendering {size} configurations across {sweeps} thread counts"⟩]

def drawTable (t : ResultTable Float) (degree : Nat) (step : Float) (draw : Backend σ ε)
    (state : σ) : σ × Noted (Failure ε) Unit :=
  match sketch t degree step with
  | .error e => (state, .ofExcept (.error (.composing e)))
  | .ok k =>
    let (state, drawn) := draw k.figure state
    (state, ⟨drawn.result.mapError .drawing, composeEvents t k ++ drawn.events⟩)

/-- Collects, composes and draws. Nothing is drawn from results with a problem. -/
def drawReport (t : FileTree) (s : Settings) (draw : Backend σ ε) (state : σ) :
    σ × Noted (Failure ε) Unit :=
  match reportTable t s with
  | ⟨.error e, events⟩ => (state, ⟨.error e, events⟩)
  | ⟨.ok table, events⟩ =>
    let (state, drawn) := drawTable table s.fitDegree.toNat s.curveStep draw state
    (state, ⟨drawn.result, events ++ drawn.events⟩)

end SweepReport
