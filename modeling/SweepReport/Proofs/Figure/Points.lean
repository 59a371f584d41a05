import SweepReport.Figure.Sketch
import SweepReport.Proofs.Figure.Fitted
import SweepReport.Proofs.Figure.Sweeps

/-! The points of a figure. Each panel has the table's values of its metric, in the order of the
table, cut into series where the thread count changes. -/
namespace SweepReport
variable {α : Type}

theorem le_max_word (a b : UInt64) : a ≤ max a b ∧ b ≤ max a b ∧ (max a b = a ∨ max a b = b) := by
  have hmax : max a b = if a ≤ b then b else a := rfl
  by_cases h : a ≤ b
  · simp [hmax, h]
  · simp [hmax, h, UInt64.le_of_lt (UInt64.not_le.mp h)]

theorem exists_largest {t : ResultTable α} (h : t.entries ≠ []) :
    ∃ m, t.maxBatch? = some m ∧ (∃ e ∈ t.entries, e.1.batch = m) ∧
      ∀ e ∈ t.entries, e.1.batch ≤ m := by
  have hfold : ∀ (es : List (Label × Metrics α)) (b : UInt64), ∃ m,
      es.foldl (fun m e => some (m.elim e.1.batch (max · e.1.batch))) (some b) = some m ∧
        (m = b ∨ ∃ e ∈ es, e.1.batch = m) ∧ b ≤ m ∧ ∀ e ∈ es, e.1.batch ≤ m := by
    intro es
    induction es with
    | nil => exact fun b => ⟨b, rfl, .inl rfl, UInt64.le_refl b, by simp⟩
    | cons e es ih =>
      intro b
      obtain ⟨m, hm, hfrom, hle, hall⟩ := ih (max b e.1.batch)
      obtain ⟨hb, he, hmax⟩ := le_max_word b e.1.batch
      refine ⟨m, hm, ?_, UInt64.le_trans hb hle,
        List.forall_mem_cons.mpr ⟨UInt64.le_trans he hle, hall⟩⟩
      cases hfrom with
      | inl hfrom =>
        cases hmax with
        | inl hmax => exact .inl (hfrom.trans hmax)
        | inr hmax => exact .inr ⟨e, List.mem_cons_self, (hfrom.trans hmax).symm⟩
      | inr hfrom =>
        obtain ⟨d, hd, hdm⟩ := hfrom
        exact .inr ⟨d, List.mem_cons_of_mem e hd, hdm⟩
  unfold ResultTable.maxBatch?
  cases hes : t.entries with
  | nil => exact absurd hes h
  | cons e es =>
    obtain ⟨m, hm, hfrom, hle, hall⟩ := hfold es e.1.batch
    refine ⟨m, hm, ?_, List.forall_mem_cons.mpr ⟨hle, hall⟩⟩
    cases hfrom with
    | inl hfrom => exact ⟨e, List.mem_cons_self, hfrom.symm⟩
    | inr hfrom =>
      obtain ⟨d, hd, hdm⟩ := hfrom
      exact ⟨d, List.mem_cons_of_mem e hd, hdm⟩

theorem exists_maxBatch {t : ResultTable α} (h : t.entries ≠ []) :
    ∃ maxBatch, t.maxBatch? = some maxBatch := by
  obtain ⟨maxBatch, hmax, -⟩ := exists_largest h
  exact ⟨maxBatch, hmax⟩

theorem flatMap_points_ofValues (values : List (Label × α)) :
    (Sweep.ofValues values).flatMap Sweep.points = values.map fun e => (e.1.batch, e.2) := by
  have hpoints : (Sweep.points : Sweep α → _) = fun s => s.labelled.map fun e => (e.1.batch, e.2) := by
    funext s
    simp [Sweep.labelled, Function.comp_def]
  rw [hpoints, ← List.map_flatMap, Sweep.flatMap_labelled_ofValues]

theorem mem_values_iff {t : ResultTable α} {metric : Metric} {l : Label} {y : α} :
    (l, y) ∈ t.values metric ↔ ∃ m, t.get? l = some m ∧ m.get metric = y := by
  simp only [ResultTable.values, List.mem_map, Prod.mk.injEq, Prod.exists]
  constructor
  · rintro ⟨k, m, hm, rfl, rfl⟩
    exact ⟨m, LabelMap.mem_entries_iff.mp hm, rfl⟩
  · rintro ⟨m, hm, rfl⟩
    exact ⟨l, m, LabelMap.mem_entries_iff.mpr hm, rfl, rfl⟩

variable [Scalar α]

def Panel.points (p : Panel α) : List (α × α) := p.series.flatMap Series.points

/-- The panel is composed of these sweeps, which are the table's for the metric with their trend lines. -/
structure Panel.ComposedOf (p : Panel α) (t : ResultTable α) (degree : Nat) (step : α) (metric : Metric)
    (fs : List (FittedSweep α)) : Prop where
  fitted : fitSweeps? (Sweep.ofTable t metric) degree step = some fs
  composed : ∃ maxBatch, t.maxBatch? = some maxBatch ∧
    p = PanelSketch.panel ⟨metric, Scalar.ofWord maxBatch, maxMetric (Sweep.ofTable t metric), fs⟩

namespace Panel.ComposedOf
variable {p : Panel α} {t : ResultTable α} {degree : Nat} {step : α} {metric : Metric}
  {fs : List (FittedSweep α)} (h : p.ComposedOf t degree step metric fs)
include h

theorem title : p.title = metric.title := by
  obtain ⟨maxBatch, -, rfl⟩ := h.composed
  rfl

theorem series : p.series = fs.map FittedSweep.series := by
  obtain ⟨maxBatch, -, rfl⟩ := h.composed
  rfl

theorem xMax {largest : UInt64} (hmax : t.maxBatch? = some largest) : p.xMax = Scalar.ofWord largest := by
  obtain ⟨maxBatch, hmax', rfl⟩ := h.composed
  rw [hmax, Option.some.injEq] at hmax'
  rw [hmax']
  rfl

theorem extent : (p.yMin, p.yMax) = verticalExtent p.series (maxMetric (Sweep.ofTable t metric)) := by
  obtain ⟨maxBatch, -, rfl⟩ := h.composed
  rfl

theorem sweeps : fs.map FittedSweep.sweep = Sweep.ofTable t metric := map_sweep_of_fitSweeps? h.fitted

theorem points : p.points = (t.values metric).map fun e => (Scalar.ofWord e.1.batch, e.2) := by
  have hpoints : p.points = ((fs.map FittedSweep.sweep).flatMap Sweep.points).map
      fun q => (Scalar.ofWord q.1, q.2) := by
    rw [Panel.points, h.series, List.flatMap_map, List.flatMap_map, List.map_flatMap]
    rfl
  rw [hpoints, h.sweeps, Sweep.ofTable, flatMap_points_ofValues, List.map_map]
  rfl

end Panel.ComposedOf

/-- Every trend line of the table is sampled to its end. -/
def ResultTable.Sampled (t : ResultTable α) (degree : Nat) (step : α) : Prop :=
  ∀ metric, ∀ s ∈ Sweep.ofTable t metric, ∃ f, s.fitted? degree step = some f

def Figure.panel? (f : Figure α) (metric : Metric) : Option (Panel α) :=
  f.panels.find? fun p => p.title = metric.title

def Figure.IsOf (figure : Figure α) (t : ResultTable α) (degree : Nat) (step : α) : Prop :=
  ∃ runtime throughput, figure = ⟨reportName, [runtime, throughput]⟩ ∧
    (∃ fs, runtime.ComposedOf t degree step .runtime fs) ∧
    ∃ fs, throughput.ComposedOf t degree step .throughput fs

section
variable {t : ResultTable α} {degree : Nat} {step : α} {figure : Figure α}

theorem exists_fitSweeps?_iff : t.Sampled degree step ↔
    ∀ metric, ∃ fs, fitSweeps? (Sweep.ofTable t metric) degree step = some fs :=
  forall_congr' fun _ => exists_mapM_iff.symm

/-- A table has no figure if it is empty, or if the sampling of a trend line never ends. -/
theorem ofTable_cases (t : ResultTable α) (degree : Nat) (step : α) :
    (t.entries = [] ∧ Figure.ofTable t degree step = .error .empty) ∨
    (t.entries ≠ [] ∧ ¬ t.Sampled degree step ∧ Figure.ofTable t degree step = .error .endless) ∨
    t.entries ≠ [] ∧ t.Sampled degree step ∧
      ∃ figure, figure.IsOf t degree step ∧ Figure.ofTable t degree step = .ok figure := by
  by_cases hempty : t.entries = []
  · have hmax : t.maxBatch? = none := by rw [ResultTable.maxBatch?, hempty]; rfl
    refine .inl ⟨hempty, ?_⟩
    rw [Figure.ofTable, sketch, hmax]
    rfl
  · refine .inr ?_
    obtain ⟨maxBatch, hmax⟩ := exists_maxBatch hempty
    rw [Figure.ofTable, sketch, hmax]
    dsimp only
    cases hall : Metric.all.mapM (sketchPanel? t maxBatch degree step) with
    | none =>
      refine .inl ⟨hempty, fun hsampled => ?_, rfl⟩
      obtain ⟨ks, hks⟩ : ∃ ks, Metric.all.mapM (sketchPanel? t maxBatch degree step) = some ks := by
        refine exists_mapM_iff.mpr fun metric _ => ?_
        obtain ⟨fs, hfs⟩ := exists_fitSweeps?_iff.mp hsampled metric
        exact ⟨_, by rw [sketchPanel?, hfs]; rfl⟩
      rw [hall] at hks
      contradiction
    | some ks =>
      have hmetric := mapM_eq_some_iff.mp hall
      rw [Metric.all] at hmetric
      cases hmetric with | cons hruntime hrest =>
      cases hrest with | cons hthroughput hrest =>
      cases hrest
      obtain ⟨rs, hrs, rfl⟩ := Option.map_eq_some_iff.mp hruntime
      obtain ⟨ts, hts, rfl⟩ := Option.map_eq_some_iff.mp hthroughput
      refine .inr ⟨hempty, exists_fitSweeps?_iff.mpr fun metric => ?_, _,
        ⟨_, _, rfl, ⟨rs, hrs, maxBatch, hmax, rfl⟩, ts, hts, maxBatch, hmax, rfl⟩, rfl⟩
      cases metric with
      | runtime => exact ⟨rs, hrs⟩
      | throughput => exact ⟨ts, hts⟩

theorem exists_figure_iff :
    (∃ figure, Figure.ofTable t degree step = .ok figure) ↔
      t.entries ≠ [] ∧ t.Sampled degree step := by
  obtain ⟨hempty, h⟩ | ⟨hne, hendless, h⟩ | ⟨hne, hsampled, figure, -, h⟩ :=
    ofTable_cases t degree step
  · simp [h, hempty]
  · simp [h, hendless]
  · exact iff_of_true ⟨figure, h⟩ ⟨hne, hsampled⟩

theorem ofTable_eq_endless_iff : Figure.ofTable t degree step = .error .endless ↔
    t.entries ≠ [] ∧ ¬ t.Sampled degree step := by
  obtain ⟨hempty, h⟩ | ⟨hne, hendless, h⟩ | ⟨hne, hsampled, figure, -, h⟩ :=
    ofTable_cases t degree step
  · simp [h, hempty]
  · exact iff_of_true h ⟨hne, hendless⟩
  · simp [h, hsampled]

variable (h : Figure.ofTable t degree step = .ok figure)
include h

theorem isOf_of_ofTable : figure.IsOf t degree step := by
  obtain ⟨-, h'⟩ | ⟨-, -, h'⟩ | ⟨-, -, other, hother, h'⟩ := ofTable_cases t degree step
  · rw [h'] at h
    contradiction
  · rw [h'] at h
    contradiction
  · rw [h', Except.ok.injEq] at h
    exact h ▸ hother

theorem exists_panel (metric : Metric) :
    ∃ p fs, figure.panel? metric = some p ∧ p.ComposedOf t degree step metric fs := by
  obtain ⟨runtime, throughput, rfl, ⟨rs, hr⟩, ts, ht⟩ := isOf_of_ofTable h
  cases metric with
  | runtime =>
    refine ⟨runtime, rs, ?_, hr⟩
    rw [Figure.panel?, List.find?_cons, hr.title]
    rfl
  | throughput =>
    refine ⟨throughput, ts, ?_, ht⟩
    rw [Figure.panel?, List.find?_cons, List.find?_cons, hr.title, ht.title]
    rfl

theorem exists_composedOf {p : Panel α} (hp : p ∈ figure.panels) :
    ∃ metric fs, p.ComposedOf t degree step metric fs := by
  obtain ⟨runtime, throughput, rfl, ⟨rs, hr⟩, ts, ht⟩ := isOf_of_ofTable h
  rcases List.mem_pair.mp hp with rfl | rfl
  · exact ⟨.runtime, rs, hr⟩
  · exact ⟨.throughput, ts, ht⟩

end

end SweepReport
