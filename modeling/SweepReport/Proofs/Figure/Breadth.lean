import SweepReport.Proofs.Figure.Locality
import SweepReport.Proofs.Figure.Partition

/-! The horizontal extent of a panel. Batch sizes are rounded one by one, those of the points, the ends of a
trend line and the width of the panel; since rounding keeps the order, the points of a series do not
descend, the samples lie between the first point and the last, and all lies within the panel. -/
namespace SweepReport
open Double Numeral

def batchCode (b : UInt64) : Nat := nearestCode b.toNat 1

/-- The double that a batch size is drawn at. -/
def roundedBatch (b : UInt64) : Float := ofCode (batchCode b)

section
variable {a b : UInt64}

theorem batchCode_le (b : UInt64) : batchCode b ≤ infinityCode := nearestCode_le b.toNat 1

theorem batchCode_mono (h : a ≤ b) : batchCode a ≤ batchCode b :=
  nearestCode_mono_left Nat.one_pos h

/-- Not all batch sizes are told apart. -/
example : batchCode 9007199254740992 = batchCode 9007199254740993 := by decide +kernel

theorem ofWord_eq_roundedBatch : (Scalar.ofWord : UInt64 → Float) = roundedBatch := funext ofWord_eq

theorem roundedBatch_mono (h : a ≤ b) : roundedBatch a ≤ roundedBatch b :=
  (ofCode_le_iff (batchCode_le a) (batchCode_le b)).mpr (batchCode_mono h)

theorem roundedBatch_lt_iff : roundedBatch a < roundedBatch b ↔ batchCode a < batchCode b :=
  ofCode_lt_iff (batchCode_le a) (batchCode_le b)

theorem zero_le_roundedBatch (b : UInt64) : Scalar.zero ≤ roundedBatch b :=
  (ofCode_le_iff (Nat.zero_le _) (batchCode_le b)).mpr (Nat.zero_le _)

theorem abscissaCode_zero {c s : Nat} (hc : c ≤ infinityCode) : abscissaCode c s 0 = c := by
  have hindex : nearestCode 0 1 = 0 := if_pos rfl
  have hproduct : nearestCode 0 (2 ^ (unitExponent + unitExponent)) = 0 := if_pos rfl
  rw [abscissaCode, hindex, units_zero, Nat.zero_mul, hproduct, units_zero, Nat.add_zero,
    nearestCode_units, Nat.min_eq_left hc]

/-- Where a trend line is sampled, by codes; a step that leads nowhere has no samples, and neither has the
infinite one. -/
theorem exists_sampled {c d : Nat} (hc : c ≤ infinityCode) (hd : d ≤ infinityCode) {p : Trend Float}
    {step : Float} {curve : Curve Float} (h : p.sample? (ofCode c) (ofCode d) step = some curve) :
    ∃ s n, (∀ i < n, abscissaCode c s i < d) ∧
      curve.map Prod.fst = (List.range n).map fun i => ofCode (abscissaCode c s i) := by
  have hnone : ∃ s n, (∀ i < n, abscissaCode c s i < d) ∧
      [] = (List.range n).map fun i => ofCode (abscissaCode c s i) :=
    ⟨0, 0, fun i hi => absurd hi (Nat.not_lt_zero i), rfl⟩
  cases hstep : isStep step with
  | false =>
    rw [sample?_of_not_isStep hstep, Option.some.injEq] at h
    rw [← h]
    exact hnone
  | true =>
    obtain ⟨n, hsize, harrives, rfl⟩ := (sample?_eq_some_iff hstep p).mp h
    have hlimit : n < UInt64.size := hsize
    have hbelow : ∀ i < n, abscissa (ofCode c) step i < ofCode d :=
      fun i hi => of_decide_eq_true (harrives.below i hi)
    rw [Trend.samples, List.map_map]
    obtain ⟨s, -, hs, rfl⟩ := code_of_isStep hstep
    rcases Nat.eq_or_lt_of_le hs with rfl | hfinite
    · cases n with
      | zero => exact hnone
      | succ n =>
        have hfirst := infinite_step_arrives c d
        exact absurd (hbelow 0 n.succ_pos) (of_decide_eq_false hfirst)
    · have hplace {i : Nat} (hi : i < n) :
          abscissa (ofCode c) (ofCode s) i = ofCode (abscissaCode c s i) :=
        abscissa_ofCode hc hfinite (Nat.le_of_lt (Nat.lt_trans hi hlimit))
      refine ⟨s, n, fun i hi => ?_, List.map_congr_left fun i hi => hplace (List.mem_range.mp hi)⟩
      have hless := hbelow i hi
      rw [hplace hi] at hless
      exact (ofCode_lt_iff (abscissaCode_le ..) hd).mp hless

/-- Samples do not descend; they lie at the start or above it, and below the end. -/
theorem sample_ordered {p : Trend Float} {step : Float} {curve : Curve Float}
    (h : p.sample? (roundedBatch a) (roundedBatch b) step = some curve) :
    (curve.map Prod.fst).Pairwise (· ≤ ·) ∧
      ∀ c ∈ curve, roundedBatch a ≤ c.1 ∧ c.1 < roundedBatch b := by
  obtain ⟨s, n, hbelow, hsampled⟩ := exists_sampled (batchCode_le a) (batchCode_le b) h
  have hle {i j : Nat} (hij : i ≤ j) :
      ofCode (abscissaCode (batchCode a) s i) ≤ ofCode (abscissaCode (batchCode a) s j) :=
    (ofCode_le_iff (abscissaCode_le ..) (abscissaCode_le ..)).mpr (abscissaCode_mono hij)
  constructor
  · rw [hsampled, List.pairwise_map]
    exact List.pairwise_lt_range.imp fun hlt => hle (Nat.le_of_lt hlt)
  · intro c hc
    have hmem := List.mem_map_of_mem (f := Prod.fst) hc
    rw [hsampled] at hmem
    obtain ⟨i, hi, hx⟩ := List.mem_map.mp hmem
    have hfirst := hle (Nat.zero_le i)
    rw [abscissaCode_zero (batchCode_le a)] at hfirst
    rw [← hx]
    exact ⟨hfirst, (ofCode_lt_iff (abscissaCode_le ..) (batchCode_le b)).mpr
      (hbelow i (List.mem_range.mp hi))⟩

end

/-- The series has a point above each of the batch sizes, rounded, and lies in a panel of this width. -/
structure Series.Spread (s : Series Float) (batches : List UInt64) (xMax : Float) : Prop where
  abscissas : s.points.map Prod.fst = batches.map roundedBatch
  ordered : (s.points.map Prod.fst).Pairwise (· ≤ ·)
  /-- Neighbours fall together only where they are rounded to one double. -/
  apart : batches.Pairwise fun a b =>
    roundedBatch a < roundedBatch b ∨ batchCode a = batchCode b
  sampled : (s.curve.map Prod.fst).Pairwise (· ≤ ·)
  within : ∀ p ∈ s.points ++ s.curve, Scalar.zero ≤ p.1 ∧ p.1 ≤ xMax
  between : ∃ first last, s.points.head? = some first ∧ s.points.getLast? = some last ∧
    (∀ c ∈ s.curve, first.1 ≤ c.1 ∧ c.1 < last.1) ∧ (first.1 = last.1 → s.curve = [])

section
variable {t : ResultTable Float} {metric : Metric} {s : Sweep Float}

theorem mem_batches_iff (hs : s ∈ Sweep.ofTable t metric) (b : UInt64) :
    b ∈ s.points.map Prod.fst ↔ ⟨s.threads, b⟩ ∈ t.labels := by
  rw [ResultTable.labels_eq_map t metric]
  have hparts := Sweep.partitions_ofValues (Sweep.ascending_values t metric)
  constructor
  · intro hb
    obtain ⟨p, hp, rfl⟩ := List.mem_map.mp hb
    have hmem : (⟨s.threads, p.1⟩, p.2) ∈ t.values metric := by
      rw [← Sweep.flatMap_labelled_ofValues (t.values metric)]
      exact List.mem_flatMap.mpr ⟨s, hs, List.mem_map.mpr ⟨p, hp, rfl⟩⟩
    exact List.mem_map.mpr ⟨_, hmem, rfl⟩
  · intro hb
    obtain ⟨e, he, hlabel⟩ := List.mem_map.mp hb
    obtain ⟨r, hr, hthreads, hfound, -⟩ := hparts.lands e.1 e.2 he
    have hsame : r = s := by
      refine Sweep.eq_of_threads hparts.ascending hs hr ?_
      rw [hthreads, hlabel]
    have hmem : (b, e.2) ∈ r.points.filter fun p => p.1 = e.1.batch := by
      rw [hfound, hlabel]
      exact List.mem_singleton_self _
    rw [← hsame]
    exact List.mem_map.mpr ⟨_, (List.mem_filter.mp hmem).1, rfl⟩

/-- The first point of a series is at the least batch and the last at the greatest, and the samples lie
between them in order. -/
theorem exists_ends (hs : s ∈ Sweep.ofTable t metric) {degree : Nat} {step : Float}
    {f : FittedSweep Float} (hf : s.fitted? degree step = some f) :
    ∃ a b first last, s.Spans a b ∧ f.series.points.head? = some first ∧
      f.series.points.getLast? = some last ∧
      first.1 = roundedBatch a ∧ last.1 = roundedBatch b ∧
      (f.curve.map Prod.fst).Pairwise (· ≤ ·) ∧
      ∀ c ∈ f.curve, first.1 ≤ c.1 ∧ c.1 < last.1 := by
  obtain ⟨a, b, hspans, hcurve, hsweep⟩ := (Sweep.fitted?_eq_some_iff hs).mp hf
  obtain ⟨c, d, hends, hhead, hlast⟩ :=
    Sweep.exists_spans (Sweep.points_ne_nil hs)
      (Sweep.ascending_points (Sweep.ascending_values t metric) hs)
  obtain ⟨rfl, rfl⟩ := hspans.unique hends
  rw [List.head?_map, Option.map_eq_some_iff] at hhead
  rw [List.getLast?_map, Option.map_eq_some_iff] at hlast
  obtain ⟨p, hp, rfl⟩ := hhead
  obtain ⟨q, hq, rfl⟩ := hlast
  rw [ofWord_eq_roundedBatch] at hcurve
  have hpoints : f.series.points = s.points.map fun p => (roundedBatch p.1, p.2) := by
    rw [hsweep, FittedSweep.series, ofWord_eq_roundedBatch]
  refine ⟨p.1, q.1, (roundedBatch p.1, p.2), (roundedBatch q.1, q.2), hspans, ?_, ?_, rfl, rfl, ?_⟩
  · simp [hpoints, hp]
  · simp [hpoints, hq]
  · cases hfit : Trend.fit? s.xs s.ys degree with
    | none =>
      rw [hfit, Option.elim_none, Option.some.injEq] at hcurve
      rw [← hcurve]
      simp
    | some trend =>
      rw [hfit, Option.elim_some] at hcurve
      exact sample_ordered hcurve

theorem spread_fitted (hs : s ∈ Sweep.ofTable t metric) {largest : UInt64}
    (hlargest : ∀ b ∈ s.points.map Prod.fst, b ≤ largest) {degree : Nat} {step : Float}
    {f : FittedSweep Float} (hf : s.fitted? degree step = some f) :
    f.series.Spread (s.points.map Prod.fst) (roundedBatch largest) := by
  have hascending : (s.points.map Prod.fst).Pairwise (· < ·) :=
    List.pairwise_map.mpr (Sweep.ascending_points (Sweep.ascending_values t metric) hs)
  have habscissas : f.series.points.map Prod.fst = (s.points.map Prod.fst).map roundedBatch := by
    rw [← sweep_of_fitted? hf]
    simp [FittedSweep.series, ofWord_eq_roundedBatch]
  obtain ⟨a, b, first, last, hspans, hhead, hlast, hfirst, hend, hsampled, hcurve⟩ := exists_ends hs hf
  refine ⟨habscissas, ?_, ?_, hsampled, fun p hp => ?_, first, last, hhead, hlast, hcurve,
    fun hsame => ?_⟩
  · rw [habscissas, List.pairwise_map]
    exact hascending.imp fun hlt => roundedBatch_mono (UInt64.le_of_lt hlt)
  · refine hascending.imp fun {m n} hlt => ?_
    rw [roundedBatch_lt_iff]
    exact Nat.lt_or_eq_of_le (batchCode_mono (UInt64.le_of_lt hlt))
  · cases List.mem_append.mp hp with
    | inl hpoint =>
      have hx : p.1 ∈ (s.points.map Prod.fst).map roundedBatch :=
        habscissas ▸ List.mem_map_of_mem hpoint
      obtain ⟨n, hn, hx⟩ := List.mem_map.mp hx
      exact hx ▸ ⟨zero_le_roundedBatch n, roundedBatch_mono (hlargest n hn)⟩
    | inr hsample =>
      obtain ⟨habove, hbelow⟩ := hcurve p hsample
      rw [hfirst] at habove
      rw [hend] at hbelow
      exact ⟨le_trans (zero_le_roundedBatch a) habove,
        le_trans (le_of_lt hbelow) (roundedBatch_mono (hlargest b hspans.greatest_mem))⟩
  · refine List.eq_nil_iff_forall_not_mem.mpr fun c hc => ?_
    obtain ⟨habove, hbelow⟩ := hcurve c hc
    rw [hsame] at habove
    exact not_lt_self _ (lt_of_lt_of_le hbelow habove)

end

/-- The panels of a table's figure are as wide as its largest batch size rounded to a double. Each of their
series has a point above every batch size of its count, from left to right, and two of them are at one
place only if they are rounded to one double; its samples lie from the first point on and before the last,
so that there are none where these are one double; and all of it lies between zero and the width. -/
theorem panels_wide_enough (t : ResultTable Float) (degree : Nat) (step : Float)
    {figure : Figure Float} (h : Figure.ofTable t degree step = .ok figure) :
    ∃ largest, (∃ l ∈ t.labels, l.batch = largest) ∧ (∀ l ∈ t.labels, l.batch ≤ largest) ∧
      ∀ panel ∈ figure.panels, panel.xMax = roundedBatch largest ∧ ∀ s ∈ panel.series,
        ∃ batches : List UInt64, batches.Pairwise (· < ·) ∧
          (∀ b, b ∈ batches ↔ ⟨⟨s.label⟩, b⟩ ∈ t.labels) ∧ s.Spread batches panel.xMax := by
  obtain ⟨largest, hmax, ⟨e, he, hbatch⟩, hall⟩ := exists_largest (exists_figure_iff.mp ⟨figure, h⟩).1
  have hlabels : ∀ l ∈ t.labels, l.batch ≤ largest := by
    intro l hl
    obtain ⟨e, he, rfl⟩ := List.mem_map.mp hl
    exact hall e he
  refine ⟨largest, ⟨e.1, List.mem_map_of_mem he, hbatch⟩, hlabels, fun panel hpanel => ?_⟩
  obtain ⟨metric, fs, hcomposed⟩ := exists_composedOf h hpanel
  have hwidth : panel.xMax = roundedBatch largest := (hcomposed.xMax hmax).trans (ofWord_eq largest)
  refine ⟨hwidth, fun s hs => ?_⟩
  rw [hwidth]
  rw [hcomposed.series] at hs
  obtain ⟨f, hf, rfl⟩ := List.mem_map.mp hs
  obtain ⟨hsweep, hfitted⟩ := fitted?_of_mem hcomposed.fitted hf
  have hbatches := mem_batches_iff hsweep
  refine ⟨f.sweep.points.map Prod.fst, ?_, hbatches, spread_fitted hsweep ?_ hfitted⟩
  · exact List.pairwise_map.mpr
      (Sweep.ascending_points (Sweep.ascending_values t metric) hsweep)
  · intro b hb
    exact hlabels _ ((hbatches b).mp hb)

/-- The greatest word there is as a batch size, and two that are rounded to one double. -/
def wideBatches : ResultTable Float :=
  ⟨[(.of "1" 9007199254740992, ⟨1, 16⟩), (.of "1" 9007199254740993, ⟨2, 32⟩),
    (.of "1" 18446744073709551615, ⟨3, 8⟩)], by
    simp [Ascending]
    decide +kernel⟩

theorem wide_batches_drawn :
    ∃ figure, Figure.ofTable wideBatches 10 (Float.ofNat (2 ^ 60)) = .ok figure ∧
      ∀ panel ∈ figure.panels, panel.xMax = Float.ofNat (2 ^ 64) ∧
        ∀ s ∈ panel.series, (s.points.map Prod.fst).Pairwise (· ≤ ·) ∧
          ∀ p ∈ s.points ++ s.curve, Scalar.zero ≤ p.1 ∧ p.1 ≤ Float.ofNat (2 ^ 64) := by
  obtain ⟨figure, hfigure⟩ : ∃ figure,
      Figure.ofTable wideBatches 10 (Float.ofNat (2 ^ 60)) = .ok figure :=
    exists_figure_of_le (by simp [wideBatches]) (by decide +kernel)
  obtain ⟨largest, -, hall, hpanels⟩ := panels_wide_enough wideBatches 10 (Float.ofNat (2 ^ 60)) hfigure
  have hmem : Label.of "1" 18446744073709551615 ∈ wideBatches.labels := by
    simp [LabelMap.labels, wideBatches]
  have hlargest : largest = 18446744073709551615 := by
    refine UInt64.le_antisymm (UInt64.le_iff_toNat_le.mpr ?_) (hall _ hmem)
    have hword := largest.toNat_lt
    change largest.toNat ≤ 18446744073709551615
    omega
  have hwidth : roundedBatch 18446744073709551615 = Float.ofNat (2 ^ 64) := by decide +kernel
  refine ⟨figure, hfigure, fun panel hpanel => ?_⟩
  obtain ⟨hmax, hseries⟩ := hpanels panel hpanel
  rw [hlargest, hwidth] at hmax
  refine ⟨hmax, fun s hs => ?_⟩
  obtain ⟨batches, -, -, hspread⟩ := hseries s hs
  exact ⟨hspread.ordered, hmax ▸ hspread.within⟩

end SweepReport
