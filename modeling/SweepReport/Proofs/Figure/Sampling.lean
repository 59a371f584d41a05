import SweepReport.Proofs.Figure.Span
import SweepReport.Proofs.Trend.LeastSquares

/-! Where the trend lines of a figure are sampled, in exact arithmetic. A walk by steps above zero comes
to its end, and its samples are all its places before the end: the start, every step from there on, and
the end left out whether a step falls on it or not. -/
namespace SweepReport

section
variable [Precision] {p : Trend ℚ} {start stop step : ℚ}

/-- The samples are those of the trend at the start and each step further that lies below the end. -/
structure SampledOn (p : Trend ℚ) (start stop step : ℚ) (curve : Curve ℚ) : Prop where
  samples : curve = (List.range curve.length).map fun i : ℕ =>
    (start + i * step, p.eval (start + i * step))
  length : IsLeast {n : ℕ | stop ≤ start + n * step} curve.length

theorem abscissa_exact (start step : ℚ) (i : ℕ) : abscissa start step i = start + i * step := rfl

theorem arrives_exact_iff {n : ℕ} :
    Arrives start stop step n ↔ IsLeast {n : ℕ | stop ≤ start + n * step} n := by
  constructor
  · rintro ⟨hbelow, harrived⟩
    refine ⟨by simpa [abscissa_exact] using harrived, fun m hm => Nat.le_of_not_lt fun hlt => ?_⟩
    have hless : start + m * step < stop := by simpa [abscissa_exact] using hbelow m hlt
    exact hless.not_ge hm
  · rintro ⟨hmem, hleast⟩
    refine ⟨fun i hi => ?_, by simpa [abscissa_exact] using hmem⟩
    have hless : ¬ stop ≤ start + i * step := fun hle => absurd (hleast hle) (Nat.not_le.mpr hi)
    simpa [abscissa_exact] using hless

theorem exists_arrives (hstep : 0 < step) (start stop : ℚ) :
    ∃ n, Arrives start stop step n ∧ n < Scalar.reach start stop step := by
  have hceil : stop ≤ start + (⌈(stop - start) / step⌉₊ : ℕ) * step := by
    have hle := Nat.le_ceil ((stop - start) / step)
    rw [div_le_iff₀ hstep] at hle
    linarith
  have hleast := Nat.isLeast_find (p := fun n : ℕ => stop ≤ start + n * step) ⟨_, hceil⟩
  exact ⟨_, arrives_exact_iff.mpr hleast, Nat.lt_succ_of_le (hleast.2 hceil)⟩

theorem exists_sampledOn (hstep : 0 < step) (p : Trend ℚ) (start stop : ℚ) :
    ∃ curve, p.sample? start stop step = some curve ∧ SampledOn p start stop step curve := by
  have hpositive : isStep step = true := by simpa [isStep] using hstep
  obtain ⟨n, harrives, hreach⟩ := exists_arrives hstep start stop
  refine ⟨p.samples start step n,
    (sample?_eq_some_iff hpositive p).mpr ⟨n, hreach, harrives, rfl⟩, ?_, ?_⟩
  · simp [Trend.samples, abscissa_exact]
  · rw [Trend.samples, List.length_map, List.length_range]
    exact arrives_exact_iff.mp harrives

namespace SampledOn
variable {curve : Curve ℚ} (h : SampledOn p start stop step curve)
include h

/-- No limit that leaves room for the samples shows in them. -/
theorem countFrom?_eq {limit : ℕ} (hlimit : curve.length < limit) :
    countFrom? start stop step limit 0 = some curve.length :=
  countFrom?_zero_iff.mpr ⟨hlimit, arrives_exact_iff.mpr h.length⟩

theorem lt_length_iff (hstep : 0 < step) {n : ℕ} : n < curve.length ↔ start + n * step < stop := by
  constructor
  · intro hn
    exact lt_of_not_ge fun hle => absurd (h.length.2 hle) (Nat.not_le.mpr hn)
  · intro hless
    refine Nat.lt_of_not_le fun hle => ?_
    have hend : stop ≤ start + curve.length * step := h.length.1
    have hmul : (curve.length : ℚ) * step ≤ n * step :=
      mul_le_mul_of_nonneg_right (Nat.cast_le.mpr hle) hstep.le
    linarith

theorem mem_iff (hstep : 0 < step) {x y : ℚ} :
    (x, y) ∈ curve ↔ ∃ n : ℕ, x = start + n * step ∧ x < stop ∧ y = p.eval x := by
  rw [h.samples]
  simp only [List.mem_map, List.mem_range, h.lt_length_iff hstep, Prod.mk.injEq]
  constructor
  · rintro ⟨n, hless, rfl, rfl⟩
    exact ⟨n, rfl, hless, rfl⟩
  · rintro ⟨n, rfl, hless, rfl⟩
    exact ⟨n, hless, rfl, rfl⟩

theorem head?_eq (hstep : 0 < step) (hlt : start < stop) : curve.head? = some (start, p.eval start) := by
  have hpos : 0 < curve.length := (h.lt_length_iff hstep).mpr (by simpa using hlt)
  obtain ⟨n, hn⟩ := Nat.exists_eq_add_one_of_ne_zero (Nat.ne_of_gt hpos)
  rw [h.samples, hn, List.head?_map, List.range_succ_eq_map]
  simp

theorem eq_nil_iff (hstep : 0 < step) : curve = [] ↔ stop ≤ start := by
  have hfirst := h.lt_length_iff hstep (n := 0)
  rw [← List.length_eq_zero_iff]
  simp only [Nat.cast_zero, zero_mul, add_zero] at hfirst
  rw [← not_lt, ← hfirst]
  omega

end SampledOn

end

/-- In exact arithmetic every sweep of a table is fitted, and its trend line is sampled at the least
batch and every step from there on that is below the greatest batch, nowhere else and once each. So it
starts at the least batch, and there is none where the sweep has one batch. -/
theorem trend_lines_fill_their_range [Precision] (t : ResultTable ℚ) (metric : Metric) (degree : ℕ) {step : ℚ}
    (hstep : 0 < step) : ∃ fs, fitSweeps? (Sweep.ofTable t metric) degree step = some fs ∧
      fs.map FittedSweep.sweep = Sweep.ofTable t metric ∧ ∀ f ∈ fs, ∃ a b p,
        f.sweep.Spans a b ∧ Trend.fit? f.sweep.xs f.sweep.ys degree = some p ∧
        SampledOn p a.toNat b.toNat step f.curve ∧
        (∀ limit, f.curve.length < limit →
          countFrom? (a.toNat : ℚ) b.toNat step limit 0 = some f.curve.length) ∧
        (∀ x y, (x, y) ∈ f.curve ↔
          ∃ n : ℕ, x = a.toNat + n * step ∧ x < b.toNat ∧ y = p.eval x) ∧
        (a < b → f.curve.head? = some ((a.toNat : ℚ), p.eval a.toNat)) ∧
        (f.curve = [] ↔ f.sweep.points.length = 1) := by
  have hsampled : ∀ s ∈ Sweep.ofTable t metric, ∃ f, s.fitted? degree step = some f ∧ ∃ a b p,
      s.Spans a b ∧ Trend.fit? s.xs s.ys degree = some p ∧
      SampledOn p a.toNat b.toNat step f.curve := by
    intro s hs
    obtain ⟨a, b, hspans, hfitted⟩ := Sweep.fitted?_eq hs degree step
    obtain ⟨p, hp, -⟩ := fit?_leastSquares s.xs s.ys
      (by simpa [Sweep.xs] using Sweep.points_ne_nil hs) (by simp [Sweep.xs, Sweep.ys]) degree
    obtain ⟨curve, hcurve, hsampled⟩ := exists_sampledOn hstep p (a.toNat : ℚ) b.toNat
    refine ⟨⟨s, curve, (Fit.ofSamples s.xs s.ys degree).notes⟩, ?_, a, b, p, hspans, hp, hsampled⟩
    have hsample : p.sample? (Scalar.ofWord a) (Scalar.ofWord b) step = some curve := hcurve
    rw [hfitted, hp, Option.elim_some, hsample]
    rfl
  obtain ⟨fs, hfs⟩ : ∃ fs, fitSweeps? (Sweep.ofTable t metric) degree step = some fs :=
    exists_mapM_iff.mpr fun s hs => (hsampled s hs).imp fun f hf => hf.1
  refine ⟨fs, hfs, map_sweep_of_fitSweeps? hfs, fun f hf => ?_⟩
  obtain ⟨hs, hfitted⟩ := fitted?_of_mem hfs hf
  obtain ⟨g, hg, a, b, p, hspans, hp, hsampled⟩ := hsampled f.sweep hs
  obtain rfl := Option.some.inj (hfitted.symm.trans hg)
  have hle : a ≤ b := (hspans.between a hspans.least_mem).2
  refine ⟨a, b, p, hspans, hp, hsampled, fun limit => hsampled.countFrom?_eq,
    fun x y => hsampled.mem_iff hstep, fun hlt => ?_, ?_⟩
  · exact hsampled.head?_eq hstep (Nat.cast_lt.mpr (UInt64.lt_iff_toNat_lt.mp hlt))
  · rw [hsampled.eq_nil_iff hstep, Nat.cast_le, ← UInt64.le_iff_toNat_le]
    have hascending := Sweep.ascending_points (Sweep.ascending_values t metric) hs
    refine Iff.trans ?_ (hspans.eq_iff hascending)
    exact ⟨UInt64.le_antisymm hle, fun heq => heq ▸ UInt64.le_refl a⟩

def twoBatches : ResultTable ℚ :=
  ⟨[(.of "2" 8, ⟨3 / 2, 100⟩), (.of "2" 16, ⟨5 / 2, 120⟩)], List.pairwise_pair.mpr (by decide)⟩

/-- A step that leads to the greatest batch leaves it out, and one that leads past it stops before. -/
theorem two_batches_sampled :
    letI : Precision := ⟨1 / 2 ^ 52⟩
    (∃ f, fitSweeps? (Sweep.ofTable twoBatches .runtime) 10 4 = some [f] ∧
      f.curve.map Prod.fst = [8, 12]) ∧
    ∃ f, fitSweeps? (Sweep.ofTable twoBatches .runtime) 10 3 = some [f] ∧
      f.curve.map Prod.fst = [8, 11, 14] := by
  let _ : Precision := ⟨1 / 2 ^ 52⟩
  have hsweeps : Sweep.ofTable twoBatches .runtime = [⟨⟨"2"⟩, [(8, 3 / 2), (16, 5 / 2)]⟩] := rfl
  have hfitted (step : ℚ) (hstep : 0 < step) :
      ∃ f p, fitSweeps? (Sweep.ofTable twoBatches .runtime) 10 step = some [f] ∧
        SampledOn p 8 16 step f.curve := by
    obtain ⟨fs, hfs, hall, hsampled⟩ := trend_lines_fill_their_range twoBatches .runtime 10 hstep
    obtain ⟨f, rfl, hf⟩ := List.map_eq_singleton_iff.mp (hall.trans hsweeps)
    obtain ⟨a, b, p, ⟨hleast, hgreatest, hbetween⟩, -, h, -⟩ := hsampled f (List.mem_singleton_self f)
    rw [hf] at hleast hgreatest hbetween
    simp only [List.map_cons, List.map_nil, List.mem_cons, List.not_mem_nil, or_false]
      at hleast hgreatest hbetween
    have hle : a ≤ 8 ∧ 16 ≤ b := ⟨(hbetween 8 (.inl rfl)).1, (hbetween 16 (.inr rfl)).2⟩
    obtain ⟨rfl, rfl⟩ : a = 8 ∧ b = 16 := by grind
    exact ⟨f, p, hfs, h⟩
  have habscissas {p : Trend ℚ} {step : ℚ} {curve : Curve ℚ} {n : ℕ}
      (h : SampledOn p 8 16 step curve)
      (hn : (∀ i < n, Scalar.lt (abscissa 8 step i) 16 = true) ∧
        Scalar.lt (abscissa 8 step n) 16 = false) :
      curve.map Prod.fst = (List.range n).map fun i : ℕ => 8 + i * step := by
    have hlength := (arrives_exact_iff.mp ⟨hn.1, hn.2⟩).unique h.length
    rw [h.samples, ← hlength, List.map_map]
    rfl
  constructor
  · obtain ⟨f, p, hf, h⟩ := hfitted 4 (by norm_num)
    refine ⟨f, hf, ?_⟩
    rw [habscissas (n := 2) h (by decide +kernel)]
    norm_num [List.range_succ]
  · obtain ⟨f, p, hf, h⟩ := hfitted 3 (by norm_num)
    refine ⟨f, hf, ?_⟩
    rw [habscissas (n := 3) h (by decide +kernel)]
    norm_num [List.range_succ]

end SweepReport
