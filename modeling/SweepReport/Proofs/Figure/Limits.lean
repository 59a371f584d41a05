import SweepReport.Proofs.Double.Extremes
import SweepReport.Proofs.Figure.Extent
import SweepReport.Proofs.Figure.Locality

/-! The limits of a panel are as tight as they can be: each is zero or a value that is drawn. They rest on
which values there are, so the order of the series, of the points and of the samples has no part in
them. -/
namespace SweepReport
open Double

section
variable {α : Type}

/-- The same points and the same samples, in another order. -/
structure FittedSweep.Reordered (f g : FittedSweep α) : Prop where
  points : f.sweep.points.Perm g.sweep.points
  curve : f.curve.Perm g.curve

/-- The same sweeps in another order, and each of them reordered. -/
def Rearranged (fs gs : List (FittedSweep α)) : Prop :=
  ∃ hs, fs.Perm hs ∧ List.Forall₂ FittedSweep.Reordered hs gs

theorem Rearranged.flatMap_perm {β : Type} {fs gs : List (FittedSweep α)} (h : Rearranged fs gs)
    {values : FittedSweep α → List β} (hvalues : ∀ f g, f.Reordered g → (values f).Perm (values g)) :
    (fs.flatMap values).Perm (gs.flatMap values) := by
  obtain ⟨hs, hperm, hall⟩ := h
  refine (hperm.flatMap_right values).trans ?_
  clear hperm
  induction hall with
  | nil => exact List.Perm.refl _
  | cons hfirst _ ih =>
    rw [List.flatMap_cons, List.flatMap_cons]
    exact (hvalues _ _ hfirst).append ih

variable [Scalar α]

def extentOf (fs : List (FittedSweep α)) : α × α :=
  verticalExtent (fs.map FittedSweep.series) (maxMetric (fs.map FittedSweep.sweep))

def metricValues (fs : List (FittedSweep α)) : List α := fs.flatMap fun f => f.sweep.ys

def curveValues (fs : List (FittedSweep α)) : List α := fs.flatMap fun f => f.curve.map Prod.snd

theorem extentOf_eq (fs : List (FittedSweep α)) :
    extentOf fs = ((curveValues fs).foldl Scalar.min Scalar.zero,
      (metricValues fs ++ curveValues fs).foldl Scalar.max Scalar.zero) := by
  have hcurves : ((fs.map FittedSweep.series).flatMap fun s => s.curve.map Prod.snd) =
      curveValues fs := List.flatMap_map ..
  have hmetrics : maxMetric (fs.map FittedSweep.sweep) =
      (metricValues fs).foldl Scalar.max Scalar.zero := by
    rw [maxMetric, List.flatMap_map]
    rfl
  rw [extentOf, verticalExtent_eq, hcurves, hmetrics, List.foldl_append]

namespace Panel.ComposedOf
variable {p : Panel α} {t : ResultTable α} {degree : Nat} {step : α} {metric : Metric}
  {fs : List (FittedSweep α)} (h : p.ComposedOf t degree step metric fs)
include h

theorem extentOf_eq_limits : extentOf fs = (p.yMin, p.yMax) := by
  rw [h.extent, h.series, extentOf, h.sweeps]

theorem metricValues_eq : metricValues fs = (t.values metric).map Prod.snd := by
  have hsweeps : metricValues fs =
      (fs.map FittedSweep.sweep).flatMap fun s => s.points.map Prod.snd :=
    (List.flatMap_map ..).symm
  rw [hsweeps, h.sweeps, ← List.map_flatMap, Sweep.ofTable, flatMap_points_ofValues, List.map_map]
  rfl

theorem curveValues_eq : curveValues fs = p.curvePoints.map Prod.snd := by
  rw [Panel.curvePoints, List.map_flatMap, h.series, List.flatMap_map]
  rfl

end Panel.ComposedOf

end

/-- What a fold from zero picks is the same in any order. -/
theorem extentOf_rearranged {fs gs : List (FittedSweep Float)} (h : Rearranged fs gs) :
    extentOf gs = extentOf fs := by
  have hmetrics : (metricValues fs).Perm (metricValues gs) :=
    h.flatMap_perm fun f g hfg => hfg.points.map Prod.snd
  have hcurves : (curveValues fs).Perm (curveValues gs) :=
    h.flatMap_perm fun f g hfg => hfg.curve.map Prod.snd
  rw [extentOf_eq, extentOf_eq, foldl_min_congr fun y => hcurves.mem_iff.symm,
    foldl_max_congr fun y => (hmetrics.append hcurves).mem_iff.symm]

/-- The figure of a table has a panel for each metric, whose upper limit is the greatest of zero, the
values of the metric and those of the trend lines, and whose lower limit is the least of zero and the
values of the trend lines; what is no number does not count. Drawn from the same sweeps in any other
order, with their points and samples in any other order, it has the same limits. -/
theorem limits_tight (t : ResultTable Float) (degree : Nat) (step : Float) (metric : Metric)
    {figure : Figure Float} (h : Figure.ofTable t degree step = .ok figure) :
    ∃ panel sweeps, figure.panel? metric = some panel ∧
      fitSweeps? (Sweep.ofTable t metric) degree step = some sweeps ∧
      IsGreatest (numbersWithZero
        ((t.values metric).map Prod.snd ++ panel.curvePoints.map Prod.snd)) panel.yMax ∧
      IsLeast (numbersWithZero (panel.curvePoints.map Prod.snd)) panel.yMin ∧
      panel.yMin ≤ Scalar.zero ∧ Scalar.zero ≤ panel.yMax ∧
      ∀ fs, Rearranged sweeps fs → extentOf fs = (panel.yMin, panel.yMax) := by
  obtain ⟨panel, sweeps, hpanel, hcomposed⟩ := exists_panel h metric
  have hextent := hcomposed.extentOf_eq_limits
  obtain ⟨hmin, hmax⟩ := Prod.mk.inj ((extentOf_eq _).symm.trans hextent)
  rw [hcomposed.metricValues_eq, hcomposed.curveValues_eq] at hmax
  rw [hcomposed.curveValues_eq] at hmin
  have hgreatest := isGreatest_foldl_max
    ((t.values metric).map Prod.snd ++ panel.curvePoints.map Prod.snd)
  have hleast := isLeast_foldl_min (panel.curvePoints.map Prod.snd)
  rw [hmax] at hgreatest
  rw [hmin] at hleast
  have hzero (ys : List Float) : Scalar.zero ∈ numbersWithZero ys := ⟨isNaN_zero, .inl rfl⟩
  refine ⟨panel, sweeps, hpanel, hcomposed.fitted, hgreatest, hleast, hleast.2 (hzero _),
    hgreatest.2 (hzero _), fun fs hfs => ?_⟩
  rw [extentOf_rearranged hfs, hextent]

/-- The sweeps of the three batches may change places. -/
theorem three_batches_limits :
    ∃ figure panel sweeps, Figure.ofTable threeBatches 10 0.01 = .ok figure ∧
      figure.panel? .runtime = some panel ∧
      fitSweeps? (Sweep.ofTable threeBatches .runtime) 10 0.01 = some sweeps ∧
      panel.yMin ≤ Scalar.zero ∧ 2 ≤ panel.yMax ∧
      extentOf sweeps.reverse = (panel.yMin, panel.yMax) := by
  obtain ⟨figure, hfigure⟩ : ∃ figure, Figure.ofTable threeBatches 10 0.01 = .ok figure :=
    exists_figure_of_le (by simp [threeBatches]) (by decide +kernel)
  obtain ⟨panel, sweeps, hpanel, hsweeps, hgreatest, -, hlow, -, hany⟩ :=
    limits_tight threeBatches 10 0.01 .runtime hfigure
  refine ⟨figure, panel, sweeps, hfigure, hpanel, hsweeps, hlow,
    hgreatest.2 ⟨by decide +kernel, .inr ?_⟩, hany _ ?_⟩
  · exact List.mem_append_left _ (by simp [threeBatches, ResultTable.values, Metrics.get])
  · exact ⟨_, (List.reverse_perm _).symm, List.forall₂_same.mpr fun f _ =>
      ⟨List.Perm.refl _, List.Perm.refl _⟩⟩

end SweepReport
