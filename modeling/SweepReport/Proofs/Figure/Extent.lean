import SweepReport.Proofs.Double.Order
import SweepReport.Proofs.Figure.Ending

/-! The vertical extent of a panel. It ends above everything drawn, and it begins below every curve;
a point below zero is in it only where some curve goes as low. -/
namespace SweepReport
open Double

theorem verticalExtent_eq {α : Type} [Scalar α] (series : List (Series α)) (start : α) :
    verticalExtent series start =
      ((series.flatMap fun s => s.curve.map Prod.snd).foldl Scalar.min Scalar.zero,
        (series.flatMap fun s => s.curve.map Prod.snd).foldl Scalar.max start) := by
  unfold verticalExtent
  generalize (Scalar.zero : α) = least
  induction series.flatMap fun s => s.curve.map Prod.snd generalizing least start with
  | nil => rfl
  | cons y ys ih => exact ih (Scalar.max start y) (Scalar.min least y)

def Panel.curvePoints {α : Type} (p : Panel α) : List (α × α) := p.series.flatMap Series.curve

def Panel.drawn {α : Type} (p : Panel α) : List (α × α) := p.points ++ p.curvePoints

section
variable {table : ResultTable Float} {degree : Nat} {step : Float} {figure : Figure Float}
  {panel : Panel Float}

/-- The limits are folds over the ordinates: of the curves alone for the lower one. -/
theorem extent_eq (h : Figure.ofTable table degree step = .ok figure)
    (hp : panel ∈ figure.panels) :
    panel.yMin = (panel.curvePoints.map Prod.snd).foldl Scalar.min Scalar.zero ∧
      panel.yMax = (panel.curvePoints.map Prod.snd).foldl Scalar.max
        (Scalar.greatest (panel.points.map Prod.snd)) := by
  obtain ⟨metric, fs, hcomposed⟩ := exists_composedOf h hp
  have hmetrics : (Sweep.ofTable table metric).flatMap Sweep.ys = panel.points.map Prod.snd := by
    have hys : (Sweep.ys : Sweep Float → List Float) = fun s => s.points.map Prod.snd := rfl
    rw [hcomposed.points, hys, ← List.map_flatMap, Sweep.ofTable, flatMap_points_ofValues,
      List.map_map, List.map_map]
    rfl
  have hextent := hcomposed.extent
  rw [verticalExtent_eq, ← List.map_flatMap, maxMetric, hmetrics] at hextent
  exact Prod.mk.inj hextent

theorem yMin_spec (h : Figure.ofTable table degree step = .ok figure)
    (hp : panel ∈ figure.panels) :
    panel.yMin ≤ Scalar.zero ∧
      (∀ c ∈ panel.curvePoints, c.2.isNaN = false → panel.yMin ≤ c.2) ∧
      (panel.yMin = Scalar.zero ∨ ∃ c ∈ panel.curvePoints, c.2 = panel.yMin) := by
  obtain ⟨-, hle, hall, hmem⟩ := foldl_min_spec isNaN_zero (panel.curvePoints.map Prod.snd)
  rw [← (extent_eq h hp).1] at hle hall hmem
  exact ⟨hle, fun c hc => hall c.2 (List.mem_map_of_mem hc), hmem.imp_right List.mem_map.mp⟩

theorem yMax_spec (h : Figure.ofTable table degree step = .ok figure)
    (hp : panel ∈ figure.panels) : ∀ p ∈ panel.drawn, p.2.isNaN = false → p.2 ≤ panel.yMax := by
  obtain ⟨hnumber, -, hpoints⟩ := foldl_max_spec isNaN_zero (panel.points.map Prod.snd)
  obtain ⟨-, hstart, hcurves⟩ := foldl_max_spec hnumber (panel.curvePoints.map Prod.snd)
  rw [(extent_eq h hp).2]
  intro p hp hy
  rcases List.mem_append.mp hp with hp | hp
  · exact le_trans (hpoints p.2 (List.mem_map_of_mem hp) hy) hstart
  · exact hcurves p.2 (List.mem_map_of_mem hp) hy

end

/-- A table with an entry has a figure, if its trend lines come to their ends. In each panel of a figure
the extent covers the curves, and everything from above; it covers all points that are numbers exactly
when each point below zero has a curve that goes as low. -/
theorem extent_covers_iff (table : ResultTable Float) (degree : Nat) (step : Float) :
    (table.entries ≠ [] → table.Reached degree step →
      ∃ figure, Figure.ofTable table degree step = .ok figure) ∧
    ∀ figure, Figure.ofTable table degree step = .ok figure → ∀ panel ∈ figure.panels,
      (∀ c ∈ panel.curvePoints, c.2.isNaN = false → panel.yMin ≤ c.2) ∧
      (∀ p ∈ panel.drawn, p.2.isNaN = false → p.2 ≤ panel.yMax) ∧
      ((∀ p ∈ panel.drawn, p.2.isNaN = false → panel.yMin ≤ p.2 ∧ p.2 ≤ panel.yMax) ↔
        ∀ p ∈ panel.points, p.2.isNaN = false →
          0 ≤ p.2 ∨ ∃ c ∈ panel.curvePoints, c.2 ≤ p.2) := by
  refine ⟨fun hne hreached => exists_figure_iff.mpr ⟨hne, sampled_iff_reached.mpr hreached⟩,
    fun figure h panel hp => ?_⟩
  obtain ⟨hzero, hcurves, hleast⟩ := yMin_spec h hp
  refine ⟨hcurves, yMax_spec h hp, ?_, ?_⟩
  · intro hcovers p hpoint hy
    have hmin := (hcovers p (List.mem_append_left _ hpoint) hy).1
    rcases hleast with hleast | ⟨c, hc, hleast⟩
    · rw [hleast] at hmin
      exact .inl hmin
    · rw [← hleast] at hmin
      exact .inr ⟨c, hc, hmin⟩
  · intro hlow p hdrawn hy
    refine ⟨?_, yMax_spec h hp p hdrawn hy⟩
    rcases List.mem_append.mp hdrawn with hpoint | hcurve
    · rcases hlow p hpoint hy with hpos | ⟨c, hc, hbelow⟩
      · exact le_trans hzero hpos
      · exact le_trans (hcurves c hc (le_iff.mp hbelow).1) hbelow
    · exact hcurves p hcurve hy

def lone (runtime throughput : Float) : ResultTable Float :=
  ⟨[(.of "1" 8, ⟨runtime, throughput⟩)], by simp [Ascending]⟩

theorem lone_extent_covers :
    ∃ figure, Figure.ofTable (lone 5 2) 10 0.01 = .ok figure ∧ ∀ panel ∈ figure.panels,
      ∀ p ∈ panel.drawn, p.2.isNaN = false → panel.yMin ≤ p.2 ∧ p.2 ≤ panel.yMax := by
  obtain ⟨figure, hfigure⟩ := (extent_covers_iff (lone 5 2) 10 0.01).1 (by simp [lone])
    (reached_of_le (by decide +kernel))
  refine ⟨figure, hfigure, fun panel hpanel => ?_⟩
  refine ((extent_covers_iff (lone 5 2) 10 0.01).2 figure hfigure panel hpanel).2.2.mpr ?_
  have hpoints : ((Figure.ofTable (lone 5 2) 10 0.01).toOption.all fun f =>
      f.panels.all fun panel => panel.points.all fun p => decide (0 ≤ p.2)) = true := by
    decide +kernel
  rw [hfigure, Except.toOption, Option.all_some, List.all_eq_true] at hpoints
  intro p hp _
  exact .inl (of_decide_eq_true (List.all_eq_true.mp (hpoints panel hpanel) p hp))

/-- A metric below zero has a lone configuration's point fall out of its panel. -/
theorem lone_point_below_extent :
    ∃ figure, Figure.ofTable (lone (-1) (-1)) 10 0.01 = .ok figure ∧ ∃ panel ∈ figure.panels,
      ∃ p ∈ panel.points, p.2.isNaN = false ∧ ¬ panel.yMin ≤ p.2 := by
  have hbelow : ((Figure.ofTable (lone (-1) (-1)) 10 0.01).toOption.any fun f =>
      f.panels.any fun panel => panel.points.any fun p =>
        !p.2.isNaN && !decide (panel.yMin ≤ p.2)) = true := by
    decide +kernel
  simp only [Option.any_eq_true, toOption_eq_some_iff, List.any_eq_true, Bool.and_eq_true, Bool.not_eq_true',
    decide_eq_false_iff_not] at hbelow
  exact hbelow

end SweepReport
