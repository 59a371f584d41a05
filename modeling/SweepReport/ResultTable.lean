import SweepReport.Fallible
import SweepReport.LabelMap
import SweepReport.Problem

/-! Both metrics of every configuration, and the builder that joins them. Metrics arrive in any
order; a configuration's table entry needs one of each. -/
namespace SweepReport
variable {α : Type}

structure Metrics (α : Type) where
  runtime : α
  throughput : α

def Metrics.get (m : Metrics α) : Metric → α
  | .runtime => m.runtime
  | .throughput => m.throughput

abbrev ResultTable (α : Type) := LabelMap (Metrics α)

namespace ResultTable

def size (t : ResultTable α) : Nat := t.entries.length

def maxBatch? (t : ResultTable α) : Option UInt64 :=
  t.entries.foldl (fun m e => some (m.elim e.1.batch (max · e.1.batch))) none

def values (t : ResultTable α) (metric : Metric) : List (Label × α) :=
  t.entries.map fun e => (e.1, e.2.get metric)

end ResultTable

/-- The metrics a configuration has so far. -/
structure Slots (α : Type) where
  runtime : Option α := none
  throughput : Option α := none

namespace Slots

def get (s : Slots α) : Metric → Option α
  | .runtime => s.runtime
  | .throughput => s.throughput

def put (s : Slots α) (metric : Metric) (v : α) : Slots α :=
  match metric with
  | .runtime => { s with runtime := some v }
  | .throughput => { s with throughput := some v }

def full (s : Slots α) : Except Metric (Metrics α) :=
  match s.runtime, s.throughput with
  | none, _ => .error .runtime
  | some _, none => .error .throughput
  | some r, some t => .ok ⟨r, t⟩

end Slots

abbrev TableBuilder (α : Type) := LabelMap (Slots α)

/-- A metric of a configuration, and where it was found. -/
structure Arrival (α : Type) where
  label : Label
  metric : Metric
  value : α
  path : Path

namespace TableBuilder

def withEntry (b : TableBuilder α) (label : Label) : TableBuilder α :=
  match b.get? label with
  | some _ => b
  | none => b.insert label {}

/-- Makes an entry for the configuration and keeps the metric in it, unless it is there already. The
builder comes back from a failed call too. -/
def record (b : TableBuilder α) (a : Arrival α) : TableBuilder α × Except Problem Unit :=
  let b := b.withEntry a.label
  let slots := (b.get? a.label).getD {}
  match slots.get a.metric with
  | some _ => (b, .error (.duplicate a.label a.metric a.path))
  | none => (b.insert a.label (slots.put a.metric a.value), .ok ())

def add (b : TableBuilder α) (label : Label) (metric : Metric) (v : α) (path : Path) :
    Except Problem (TableBuilder α) :=
  match b.record ⟨label, metric, v, path⟩ with
  | (b, .ok ()) => .ok b
  | (_, .error p) => .error p

def fullEntries : List (Label × Slots α) → Except Problem (List (Label × Metrics α))
  | [] => .ok []
  | (l, s) :: es =>
    match s.full with
    | .error missing => .error (.incomplete l missing)
    | .ok m => ((l, m) :: ·) <$> fullEntries es

theorem fullEntries_cons_eq_ok_iff {l : Label} {s : Slots α} {es : List (Label × Slots α)}
    {fs : List (Label × Metrics α)} :
    fullEntries ((l, s) :: es) = .ok fs ↔
      ∃ m rest, s.full = .ok m ∧ fullEntries es = .ok rest ∧ (l, m) :: rest = fs := by
  rw [fullEntries]
  cases s.full with
  | error missing => simp
  | ok m => simp [map_eq_ok_iff]

theorem labels_fullEntries {es : List (Label × Slots α)} {fs : List (Label × Metrics α)}
    (h : fullEntries es = .ok fs) : fs.map Prod.fst = es.map Prod.fst := by
  induction es generalizing fs with
  | nil => cases h; rfl
  | cons e es ih =>
    obtain ⟨m, rest, -, hrest, rfl⟩ := fullEntries_cons_eq_ok_iff.mp h
    simp [ih hrest]

theorem ascending_iff_labels {β : Type} {es : List (Label × β)} :
    Ascending es ↔ (es.map Prod.fst).Pairwise (· < ·) := by
  simp [Ascending, List.pairwise_map]

def toTable (b : TableBuilder α) : Except Problem (ResultTable α) :=
  match h : fullEntries b.entries with
  | .error e => .error e
  | .ok es =>
    .ok ⟨es, by
      rw [ascending_iff_labels, labels_fullEntries h, ← ascending_iff_labels]
      exact b.ascending⟩

end TableBuilder
end SweepReport
