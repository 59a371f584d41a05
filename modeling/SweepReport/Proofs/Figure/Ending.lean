import SweepReport.Proofs.Figure.Points
import SweepReport.Proofs.Figure.Span
import SweepReport.Proofs.Trend.Ending
import SweepReport.Report

/-! Where the sampling of a table's trend lines ends, in doubles. A sweep that has a trend is sampled to its
end just where the steps lead from its least batch to its greatest; the figure of the table rests on
that of every sweep. -/
namespace SweepReport

section
variable {s : Sweep Float} {t : ResultTable Float} {metric : Metric} {degree : Nat} {step : Float}

/-- The trend line of a sweep is drawn where the steps lead to its end. -/
theorem stepReaches_iff_fitted? (hs : s ∈ Sweep.ofTable t metric) {a b : UInt64} (hspans : s.Spans a b)
    (hstep : isStep step = true) {p : Trend Float} (hp : Trend.fit? s.xs s.ys degree = some p) :
    StepReaches a b step ↔
      ∃ f, s.fitted? degree step = some f ∧ f.curve.length < UInt64.size := by
  obtain ⟨c, d, hends, hfitted⟩ := Sweep.fitted?_eq hs degree step
  obtain ⟨rfl, rfl⟩ := hspans.unique hends
  rw [hp, Option.elim_some] at hfitted
  rw [exists_sample?_iff hstep p, hfitted]
  constructor
  · rintro ⟨curve, hcurve, hlength⟩
    exact ⟨_, Option.map_eq_some_iff.mpr ⟨curve, hcurve, rfl⟩, hlength⟩
  · rintro ⟨f, hf, hlength⟩
    obtain ⟨curve, hcurve, rfl⟩ := Option.map_eq_some_iff.mp hf
    exact ⟨curve, hcurve, hlength⟩

/-- By a step above zero, every sweep that has a trend is walked from its least batch to its greatest. -/
def ResultTable.Reached (t : ResultTable Float) (degree : Nat) (step : Float) : Prop :=
  isStep step → ∀ metric, ∀ s ∈ Sweep.ofTable t metric, Trend.fit? s.xs s.ys degree ≠ none →
    ∀ a b, s.Spans a b → StepReaches a b step

theorem sampled_iff_reached : t.Sampled degree step ↔ t.Reached degree step := by
  constructor
  · intro h hstep metric s hs hfit a b hspans
    obtain ⟨p, hp⟩ := Option.ne_none_iff_exists'.mp hfit
    obtain ⟨f, hf⟩ := h metric s hs
    obtain ⟨c, d, hends, hfitted⟩ := Sweep.fitted?_eq hs degree step
    obtain ⟨rfl, rfl⟩ := hspans.unique hends
    rw [hf, hp, Option.elim_some, eq_comm, Option.map_eq_some_iff] at hfitted
    obtain ⟨curve, hcurve, -⟩ := hfitted
    obtain ⟨n, hn, harrives, rfl⟩ := (sample?_eq_some_iff hstep p).mp hcurve
    exact (stepReaches_iff hstep).mpr ⟨n, hn, harrives.arrived⟩
  · intro h metric s hs
    obtain ⟨a, b, hspans, hfitted⟩ := Sweep.fitted?_eq hs degree step
    cases hfit : Trend.fit? s.xs s.ys degree with
    | none =>
      rw [hfit] at hfitted
      exact ⟨_, hfitted⟩
    | some p =>
      cases hstep : isStep step with
      | false =>
        rw [hfit, Option.elim_some, sample?_of_not_isStep hstep] at hfitted
        exact ⟨_, hfitted⟩
      | true =>
        have hreaches := h hstep metric s hs (by simp [hfit]) a b hspans
        obtain ⟨f, hf, -⟩ := (stepReaches_iff_fitted? hs hspans hstep hfit).mp hreaches
        exact ⟨f, hf⟩

/-- The steps lead to the end of every sweep if so many are as long as the greatest batch. -/
theorem reached_of_le
    (h : ∀ l ∈ t.labels, (Scalar.ofWord l.batch : Float) ≤ Scalar.ofNat UInt64.size * step) :
    t.Reached degree step := by
  intro hstep metric s hs _ a b hspans
  obtain ⟨q, hq, rfl⟩ := List.mem_map.mp hspans.greatest_mem
  have hmem : (q.1, q.2) ∈ (t.values metric).map fun e => (e.1.batch, e.2) := by
    rw [← flatMap_points_ofValues]
    exact List.mem_flatMap.mpr ⟨s, hs, hq⟩
  obtain ⟨e, he, hbatch⟩ := List.mem_map.mp hmem
  obtain ⟨entry, hentry, rfl⟩ := List.mem_map.mp he
  refine stepReaches_of_le hstep ?_
  rw [← congrArg Prod.fst hbatch]
  exact h entry.1 (List.mem_map_of_mem hentry)

theorem exists_figure_of_le (hne : t.entries ≠ [])
    (h : ∀ l ∈ t.labels, (Scalar.ofWord l.batch : Float) ≤ Scalar.ofNat UInt64.size * step) :
    ∃ figure, Figure.ofTable t degree step = .ok figure :=
  exists_figure_iff.mpr ⟨hne, sampled_iff_reached.mpr (reached_of_le h)⟩

end

/-- Under every accepted step, the sampling of a trend line ends among the 64-bit indices just where
`2 ^ 64` steps from the least batch lead to the greatest, as doubles are added; which they do if they are
as long as the greatest batch. -/
theorem sampling_ends_iff {ε : Type} {s : Settings} (hs : checkStep s = (.ok () : Except (Failure ε) Unit))
    (t : ResultTable Float) (metric : Metric) :
    ∀ w ∈ Sweep.ofTable t metric, ∃ a b, w.Spans a b ∧
      ((∃ i < UInt64.size,
          Scalar.lt (abscissa (Scalar.ofWord a) s.curveStep i) (Scalar.ofWord b) = false) ↔
        StepReaches a b s.curveStep) ∧
      (∀ p, Trend.fit? w.xs w.ys s.fitDegree.toNat = some p →
        ((∃ f, w.fitted? s.fitDegree.toNat s.curveStep = some f ∧ f.curve.length < UInt64.size) ↔
          StepReaches a b s.curveStep)) ∧
      ((Scalar.ofWord b : Float) ≤ Scalar.ofNat UInt64.size * s.curveStep →
        StepReaches a b s.curveStep) := by
  have hstep : isStep s.curveStep = true := by
    rw [checkStep] at hs
    split at hs
    · assumption
    · contradiction
  intro w hw
  obtain ⟨a, b, hspans, -⟩ := Sweep.fitted?_eq hw s.fitDegree.toNat s.curveStep
  exact ⟨a, b, hspans, (stepReaches_iff hstep).symm,
    fun p hp => (stepReaches_iff_fitted? hw hspans hstep hp).symm, stepReaches_of_le hstep⟩

def threeBatches : ResultTable Float :=
  ⟨[(.of "1" 8, ⟨1, 16⟩), (.of "1" 16, ⟨2, 32⟩), (.of "4" 8, ⟨1, 16⟩)], by
    rw [Ascending]
    decide⟩

theorem sweeps_three_batches :
    Sweep.ofTable threeBatches .runtime = [⟨⟨"1"⟩, [(8, 1), (16, 2)]⟩, ⟨⟨"4"⟩, [(8, 1)]⟩] := rfl

theorem default_step_arrives :
    checkStep {} = (.ok () : Except (Failure Unit) Unit) ∧
    ∀ w ∈ Sweep.ofTable threeBatches .runtime, ∃ a b, w.Spans a b ∧
      ∃ i < UInt64.size,
        Scalar.lt (abscissa (Scalar.ofWord a) 0.01 i) (Scalar.ofWord b : Float) = false := by
  have hcheck : checkStep {} = (.ok () : Except (Failure Unit) Unit) := by
    rw [checkStep, if_pos (by decide +kernel)]
  refine ⟨hcheck, fun w hw => ?_⟩
  obtain ⟨a, b, hspans, hend, -, hreach⟩ := sampling_ends_iff hcheck threeBatches .runtime w hw
  refine ⟨a, b, hspans, hend.mpr (hreach ?_)⟩
  have hb : b = 8 ∨ b = 16 := by
    have hmem : b ∈ w.points.map Prod.fst := hspans.greatest_mem
    rw [sweeps_three_batches] at hw
    rcases List.mem_pair.mp hw with rfl | rfl
    · simpa using hmem
    · exact .inl (by simpa using hmem)
  rcases hb with rfl | rfl <;> decide +kernel

def pairSweep : Sweep Float := ⟨⟨"1"⟩, [(8, 1), (16, 2)]⟩

theorem pairSweep_mem : pairSweep ∈ Sweep.ofTable threeBatches .runtime := by
  rw [sweeps_three_batches]
  exact List.mem_cons_self

theorem spans_pairSweep : pairSweep.Spans 8 16 := ⟨by simp [pairSweep], by simp [pairSweep], by simp [pairSweep]⟩

/-- The least positive step is accepted, and no index leads from one batch size to the next by it: all of
them together do not add up to one. Nor is the default step enough for the widest ranges. -/
theorem accepted_step_never_arrives :
    (checkStep { curveStep := Float.ofBits 1 } = (.ok () : Except (Failure Unit) Unit) ∧
      ∃ w ∈ Sweep.ofTable threeBatches .runtime, w.Spans 8 16 ∧ ∀ i < UInt64.size,
        Scalar.lt (abscissa (Scalar.ofWord 8) (Float.ofBits 1) i) (Scalar.ofWord 16) = true) ∧
    ∀ i < UInt64.size, Scalar.lt (abscissa (Scalar.ofWord 1) ({} : Settings).curveStep i)
      (Scalar.ofWord (2 ^ 60)) = true := by
  have hstep : isStep (Float.ofBits 1) = true := by decide +kernel
  refine ⟨⟨?_, pairSweep, pairSweep_mem, spans_pairSweep, ?_⟩, ?_⟩
  · rw [checkStep, if_pos hstep]
  · exact below_of_not_stepReaches hstep (by decide +kernel)
  · exact below_of_not_stepReaches (by decide +kernel) (by decide +kernel)

theorem not_reached_three_batches : ¬ threeBatches.Reached 10 (Float.ofBits 1) := by
  intro h
  have hstep : isStep (Float.ofBits 1) = true := by decide +kernel
  have hfit : (Trend.fit? pairSweep.xs pairSweep.ys 10).isSome = true := by decide +kernel
  have hreaches := h hstep .runtime pairSweep pairSweep_mem
    (Option.isSome_iff_ne_none.mp hfit) 8 16 spans_pairSweep
  exact absurd hreaches (by decide +kernel)

end SweepReport
