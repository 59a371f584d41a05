import SweepReport.Figure.PlotData
import SweepReport.Proofs.Collection.Join
import SweepReport.Proofs.Figure.Points
import SweepReport.Proofs.Summary.Finite

/-! Metrics that are no finite numbers, from the samples they are the mean of to the points that are
written as `null`. -/
namespace SweepReport

theorem Json.ofFloat_eq_null_iff {x : Float} : Json.ofFloat x = .null ↔ ¬ x.isFinite := by
  unfold Json.ofFloat
  split
  · simp_all
  · simp_all

def LacksOrdinate (figure : Figure Float) : Prop :=
  ∃ panel ∈ figure.panels, ∃ s ∈ panel.series, ∃ items x,
    Json.ofPoints s.points = .array items true ∧ .array [x, .null] true ∈ items

theorem lacksOrdinate_iff_points {figure : Figure Float} :
    LacksOrdinate figure ↔ ∃ panel ∈ figure.panels, ∃ p ∈ panel.points, ¬ p.2.isFinite := by
  constructor
  · rintro ⟨panel, hpanel, s, hs, items, x, hitems, hnull⟩
    obtain ⟨rfl, -⟩ := Json.array.inj hitems
    obtain ⟨p, hp, hpair⟩ := List.mem_map.mp hnull
    simp only [Json.array.injEq, List.cons.injEq, and_true] at hpair
    exact ⟨panel, hpanel, p, List.mem_flatMap.mpr ⟨s, hs, hp⟩, Json.ofFloat_eq_null_iff.mp hpair.2⟩
  · rintro ⟨panel, hpanel, p, hp, hfinite⟩
    obtain ⟨s, hs, hp⟩ := List.mem_flatMap.mp hp
    refine ⟨panel, hpanel, s, hs, _, Json.ofFloat p.1, rfl, List.mem_map.mpr ⟨p, hp, ?_⟩⟩
    rw [Json.ofFloat_eq_null_iff.mpr hfinite]

theorem lacksOrdinate_iff {table : ResultTable Float} {degree : Nat} {step : Float}
    {figure : Figure Float} (h : Figure.ofTable table degree step = .ok figure) :
    LacksOrdinate figure ↔ ∃ l m metric, table.get? l = some m ∧ ¬ (m.get metric).isFinite := by
  rw [lacksOrdinate_iff_points]
  constructor
  · rintro ⟨panel, hpanel, p, hp, hfinite⟩
    obtain ⟨metric, fs, hcomposed⟩ := exists_composedOf h hpanel
    rw [hcomposed.points] at hp
    obtain ⟨⟨l, y⟩, hy, rfl⟩ := List.mem_map.mp hp
    obtain ⟨m, hm, rfl⟩ := mem_values_iff.mp hy
    exact ⟨l, m, metric, hm, hfinite⟩
  · rintro ⟨l, m, metric, hm, hfinite⟩
    obtain ⟨panel, fs, hpanel, hcomposed⟩ := exists_panel h metric
    refine ⟨panel, List.mem_of_find?_eq_some hpanel, (Scalar.ofWord l.batch, m.get metric), ?_, hfinite⟩
    rw [hcomposed.points]
    exact List.mem_map.mpr ⟨(l, m.get metric), mem_values_iff.mpr ⟨m, hm, rfl⟩, rfl⟩

theorem divisors_ne_zero {samples : List (Sample Float)} {metric : Metric} {path : Path} {v : Float}
    (hiterations : ∀ s ∈ samples, s.iterations ≠ 0) (h : summarize samples metric path = .ok v)
    (hv : v.isFinite) {d : Float} (hd : d ∈ divisors metric samples) : ¬ d == 0 := by
  intro hzero
  have hne := (exists_summarize_iff.mp ⟨v, h⟩).1
  obtain ⟨rfl, s, hs, rfl⟩ := zero_divisor hne hiterations hd hzero
  obtain ⟨values, hm, hf, -⟩ := (isFinite_summarize_iff h).mp hv
  exact (exists_of_isFinite_rates hm hf s hs).2.2 hzero

/-- A mean of accepted rows is finite exactly when the rows' values and their sums are, and only
where an iteration takes no time is there a zero to divide by. A table's metric is finite exactly when the
rows of its folder give a finite one, and what is not finite has no ordinate in the plot data. -/
theorem metrics_finite_iff :
    (∀ t path samples metric origin v, samplesIn t path = .ok samples →
      summarize samples metric origin = .ok v →
        (∀ d ∈ divisors metric samples, d == 0 →
          metric = .throughput ∧ ∃ s ∈ samples, d = s.milliseconds) ∧
        (∀ s ∈ samples, s.milliseconds.isFinite ↔ s.elapsed.isFinite) ∧
        (v.isFinite ↔ StaysFinite metric samples) ∧
        (v.isFinite → ∀ d ∈ divisors metric samples, ¬ d == 0)) ∧
    (∀ t s table, (gatherTable t s).result = .ok table → ∀ metric name l samples,
      Configures t (s.root metric) name → Measured t s metric (s.root metric / ⟨name⟩) l samples →
        ∃ m, table.get? l = some m ∧
          ((m.get metric).isFinite ↔ StaysFinite metric samples)) ∧
    ∀ table degree step figure, Figure.ofTable table degree step = .ok figure →
      (LacksOrdinate figure ↔ ∃ l m metric, table.get? l = some m ∧ ¬ (m.get metric).isFinite) := by
  refine ⟨?_, ?_, fun table degree step figure h => lacksOrdinate_iff h⟩
  · intro t path samples metric origin v hread h
    have hiterations := iterations_ne_zero hread
    have hne := (exists_summarize_iff.mp ⟨v, h⟩).1
    exact ⟨fun d hd hzero => zero_divisor hne hiterations hd hzero,
      fun s hs => isFinite_milliseconds_iff (hiterations s hs), isFinite_summarize_iff h,
      fun hv d hd => divisors_ne_zero hiterations h hv hd⟩
  · intro t s table htable metric name l samples hname hm
    obtain ⟨m, hget, hv⟩ := (isJoin_of_gatherTable htable).values metric name l samples hname hm
    exact ⟨m, hget, isFinite_summarize_iff hv⟩

theorem pair_runtime_finite :
    ∃ samples v, samplesIn pairTree ⟨"r/g/t/a/s"⟩ = .ok samples ∧
      summarize samples .runtime ⟨"r/g/t/a/s"⟩ = .ok v ∧ StaysFinite .runtime samples ∧
      ∀ d ∈ divisors .runtime samples, ¬ d == 0 := by
  have hread : (samplesIn pairTree ⟨"r/g/t/a/s"⟩).toOption.map
      (fun samples => (summarize samples .runtime ⟨"r/g/t/a/s"⟩).toOption.map Float.isFinite) =
      some (some true) := by
    decide +kernel
  simp only [Option.map_eq_some_iff, toOption_eq_some_iff] at hread
  obtain ⟨samples, hsamples, v, hv, hfinite⟩ := hread
  obtain ⟨-, -, hiff, hdivisors⟩ := metrics_finite_iff.1 _ _ _ _ _ _ hsamples hv
  exact ⟨samples, v, hsamples, hv, hiff.mp hfinite, hdivisors hfinite⟩

/-- The batch that took no time is divided by, and its rate is in the table. -/
theorem instant_rate_not_finite :
    (∃ samples v, samplesIn pairTree ⟨"r/g/p/a/s"⟩ = .ok samples ∧
      summarize samples .throughput ⟨"r/g/p/a/s"⟩ = .ok v ∧
      (∃ d ∈ divisors .throughput samples, d == 0) ∧ ¬ v.isFinite) ∧
    ∃ table m, (gatherTable pairTree pairSettings).result = .ok table ∧
      table.get? (.of "2" 8) = some m ∧ ¬ m.throughput.isFinite := by
  have hread : (samplesIn pairTree ⟨"r/g/p/a/s"⟩).toOption.map
      (fun samples => (summarize samples .throughput ⟨"r/g/p/a/s"⟩).toOption.map
        fun v => ((divisors .throughput samples).any (· == 0), v.isFinite)) =
      some (some (true, false)) := by
    decide +kernel
  have hgather : (gatherTable pairTree pairSettings).result.toOption.map
      (fun table => (table.get? (.of "2" 8)).map fun m => m.throughput.isFinite) =
      some (some false) := by
    decide +kernel
  simp only [Option.map_eq_some_iff, toOption_eq_some_iff, Prod.mk.injEq,
    List.any_eq_true] at hread
  simp only [Option.map_eq_some_iff, toOption_eq_some_iff] at hgather
  obtain ⟨samples, hsamples, v, hv, hzero, hinfinite⟩ := hread
  obtain ⟨table, htable, m, hm, hrate⟩ := hgather
  rw [← Bool.not_eq_true] at hinfinite hrate
  exact ⟨⟨samples, v, hsamples, hv, hzero, hinfinite⟩, table, m, htable, hm, hrate⟩

end SweepReport
