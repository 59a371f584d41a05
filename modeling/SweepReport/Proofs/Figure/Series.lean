import Mathlib.Data.List.Nodup
import SweepReport.Proofs.Figure.Ending

/-! The series of a figure. Each panel draws every configuration of the table once, with its value of
the panel's metric; but for the values and the curves, the two panels are alike. -/
namespace SweepReport
open Std
variable {α : Type}

def Panel.plotted (p : Panel α) : List (String × α × α) :=
  p.series.flatMap fun s => s.points.map fun q => (s.label, q)

def Panel.grid (p : Panel α) : List (String × List α) :=
  p.series.map fun s => (s.label, s.points.map Prod.fst)

variable [Scalar α]

/-- The panel draws the table's values of the metric, a series for each thread count. -/
structure Panel.Shows (p : Panel α) (t : ResultTable α) (degree : Nat) (step : α)
    (metric : Metric) : Prop where
  title : p.title = metric.title
  series : ∃ fs, fitSweeps? (Sweep.grouped (t.values metric)) degree step = some fs ∧
    p.series = fs.map FittedSweep.series
  plotted : p.plotted = (t.values metric).map fun e =>
    (e.1.threads.text, Scalar.ofWord e.1.batch, e.2)
  ascending : (p.series.map fun s => ThreadCount.mk s.label).Pairwise (· < ·)
  distinct : (p.series.map Series.label).Nodup
  occupied : ∀ s ∈ p.series, s.points ≠ []

namespace Panel.ComposedOf
variable {p : Panel α} {t : ResultTable α} {degree : Nat} {step : α} {metric : Metric}
  {fs : List (FittedSweep α)} (h : p.ComposedOf t degree step metric fs)
include h

theorem ascending : (p.series.map fun s => ThreadCount.mk s.label).Pairwise (· < ·) := by
  have hthreads : (p.series.map fun s => ThreadCount.mk s.label) =
      (Sweep.ofTable t metric).map Sweep.threads := by
    rw [h.series, ← h.sweeps, List.map_map, List.map_map]
    rfl
  rw [hthreads, List.pairwise_map]
  exact Sweep.ascending_ofTable t metric

theorem plotted : p.plotted = (t.values metric).map fun e =>
    (e.1.threads.text, Scalar.ofWord e.1.batch, e.2) := by
  have hsweep (f : FittedSweep α) : (f.series.points.map fun q => (f.series.label, q)) =
      f.sweep.labelled.map fun e => (e.1.threads.text, Scalar.ofWord e.1.batch, e.2) := by
    simp [FittedSweep.series, Sweep.labelled]
  rw [Panel.plotted, h.series, List.flatMap_map]
  simp only [hsweep]
  rw [← List.map_flatMap, ← List.flatMap_map, h.sweeps, Sweep.ofTable, Sweep.flatMap_labelled_ofValues]

theorem grid : p.grid = (Sweep.ofValues t.entries).map fun s =>
    (s.threads.text, s.points.map fun q => Scalar.ofWord q.1) := by
  have hgrid : p.grid = (fs.map FittedSweep.sweep).map fun s =>
      (s.threads.text, s.points.map fun q => Scalar.ofWord q.1) := by
    rw [Panel.grid, h.series, List.map_map, List.map_map]
    refine List.map_congr_left fun f _ => ?_
    simp [FittedSweep.series]
  rw [hgrid, h.sweeps, Sweep.ofTable_eq_map, List.map_map]
  refine List.map_congr_left fun s _ => ?_
  simp [Sweep.map]

theorem shows : p.Shows t degree step metric := by
  have hascending := h.ascending
  refine ⟨h.title, ⟨fs, ?_, h.series⟩, h.plotted, hascending, ?_, ?_⟩
  · rw [Sweep.grouped_eq_ofTable]
    exact h.fitted
  · rw [List.pairwise_map] at hascending
    refine List.pairwise_map.mpr (hascending.imp fun {r s} hlt heq => ?_)
    rw [heq] at hlt
    exact ThreadCount.not_lt_self _ hlt
  · intro s hs
    rw [h.series] at hs
    obtain ⟨f, hf, rfl⟩ := List.mem_map.mp hs
    have hsweep : f.sweep ∈ Sweep.ofTable t metric := h.sweeps ▸ List.mem_map_of_mem hf
    simpa [FittedSweep.series] using Sweep.points_ne_nil hsweep

end Panel.ComposedOf

/-- A table has a figure just where it has a configuration and each of its trend lines comes to its end;
where one does not, composing the figure never ends. A figure has two panels, runtime and throughput. Each
draws every configuration once, in the order of the labels; both have the same series with points above the
same batches, and both are as wide as the largest batch. -/
theorem figure_shows_table (t : ResultTable Float) (degree : Nat) (step : Float) :
    ((∃ figure, Figure.ofTable t degree step = .ok figure) ↔
      t.entries ≠ [] ∧ t.Reached degree step) ∧
    (Figure.ofTable t degree step = .error .endless ↔ t.entries ≠ [] ∧ ¬ t.Reached degree step) ∧
    ∀ figure, Figure.ofTable t degree step = .ok figure →
      ∃ runtime throughput largest, figure = ⟨reportName, [runtime, throughput]⟩ ∧
        runtime.Shows t degree step .runtime ∧ throughput.Shows t degree step .throughput ∧
        runtime.grid = throughput.grid ∧
        runtime.xMax = Scalar.ofWord largest ∧ throughput.xMax = Scalar.ofWord largest ∧
        (∃ e ∈ t.entries, e.1.batch = largest) ∧ ∀ e ∈ t.entries, e.1.batch ≤ largest := by
  refine ⟨?_, ?_, fun figure h => ?_⟩
  · rw [exists_figure_iff, sampled_iff_reached]
  · rw [ofTable_eq_endless_iff, sampled_iff_reached]
  · obtain ⟨runtime, throughput, hpanels, ⟨rs, hr⟩, ts, ht⟩ := isOf_of_ofTable h
    obtain ⟨largest, hmax, hfrom, hall⟩ := exists_largest (exists_figure_iff.mp ⟨figure, h⟩).1
    exact ⟨runtime, throughput, largest, hpanels, hr.shows, ht.shows, by rw [hr.grid, ht.grid],
      hr.xMax hmax, ht.xMax hmax, hfrom, hall⟩

theorem three_batches_shown :
    ∃ figure runtime throughput largest, Figure.ofTable threeBatches 10 0.01 = .ok figure ∧
      figure = ⟨reportName, [runtime, throughput]⟩ ∧
      runtime.plotted = [("1", 8, 1), ("1", 16, 2), ("4", 8, 1)] ∧
      throughput.plotted = [("1", 8, 16), ("1", 16, 32), ("4", 8, 16)] ∧
      runtime.xMax = Scalar.ofWord largest ∧ throughput.xMax = Scalar.ofWord largest := by
  obtain ⟨hfigure, -, hshows⟩ := figure_shows_table threeBatches 10 0.01
  have hreached : threeBatches.Reached 10 0.01 := reached_of_le (by decide +kernel)
  obtain ⟨figure, h⟩ := hfigure.mpr ⟨by simp [threeBatches], hreached⟩
  obtain ⟨runtime, throughput, largest, hpanels, hr, ht, -, hrx, htx, -⟩ := hshows figure h
  exact ⟨figure, runtime, throughput, largest, h, hpanels, hr.plotted, ht.plotted, hrx, htx⟩

/-- By the least step above zero the three batches have no figure. -/
theorem three_batches_without_figure :
    threeBatches.entries ≠ [] ∧ ¬ ∃ figure, Figure.ofTable threeBatches 10 (Float.ofBits 1) = .ok figure := by
  refine ⟨by simp [threeBatches], fun h => not_reached_three_batches ?_⟩
  exact sampled_iff_reached.mp (exists_figure_iff.mp h).2

end SweepReport
