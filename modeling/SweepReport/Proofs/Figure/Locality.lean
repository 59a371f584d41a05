import SweepReport.Proofs.Figure.Series

/-! What a series depends on. The series of a thread count is drawn from the configurations with that
count and their values of the panel's metric, and a panel from the values of its metric. -/
namespace SweepReport
variable {α : Type}

namespace LabelMap

theorem entries_eq_of_mem {es fs : List (Label × α)} (he : Ascending es) (hf : Ascending fs)
    (h : ∀ e, e ∈ es ↔ e ∈ fs) : es = fs := by
  refine entries_unique he hf fun l => Option.ext fun v => ?_
  constructor
  · intro hl
    exact lookup_of_mem hf ((h (l, v)).mp (mem_of_lookup hl))
  · intro hl
    exact lookup_of_mem he ((h (l, v)).mpr (mem_of_lookup hl))

end LabelMap

namespace ResultTable

def value? (t : ResultTable α) (l : Label) (metric : Metric) : Option α :=
  (t.get? l).map fun m => m.get metric

/-- Both tables have the same configurations with the thread count, and the same values of the metric
for them. -/
def AgreeAt (t u : ResultTable α) (metric : Metric) (c : ThreadCount) : Prop :=
  ∀ batch, t.value? ⟨c, batch⟩ metric = u.value? ⟨c, batch⟩ metric

def valuesAt (t : ResultTable α) (metric : Metric) (c : ThreadCount) : List (Label × α) :=
  (t.values metric).filter fun e => e.1.threads = c

variable {t u : ResultTable α} {metric : Metric} {c : ThreadCount}

theorem mem_values_iff_value? {l : Label} {y : α} :
    (l, y) ∈ t.values metric ↔ t.value? l metric = some y := by
  rw [mem_values_iff, value?, Option.map_eq_some_iff]

theorem agreeAt_iff : AgreeAt t u metric c ↔ t.valuesAt metric c = u.valuesAt metric c := by
  have hmem (t : ResultTable α) (batch : UInt64) (y : α) :
      (⟨c, batch⟩, y) ∈ t.valuesAt metric c ↔ t.value? ⟨c, batch⟩ metric = some y := by
    simp [valuesAt, mem_values_iff_value?]
  have hascending (t : ResultTable α) : Ascending (t.valuesAt metric c) :=
    (Sweep.ascending_values t metric).sublist List.filter_sublist
  constructor
  · intro h
    refine LabelMap.entries_eq_of_mem (hascending t) (hascending u) fun e => ?_
    obtain ⟨⟨threads, batch⟩, y⟩ := e
    by_cases hc : threads = c
    · rw [hc, hmem, hmem, h batch]
    · simp [valuesAt, hc]
  · intro h batch
    refine Option.ext fun y => ?_
    rw [← hmem, h, hmem]

theorem values_eq (h : ∀ c, AgreeAt t u metric c) : t.values metric = u.values metric := by
  refine LabelMap.entries_eq_of_mem (Sweep.ascending_values t metric)
    (Sweep.ascending_values u metric) fun e => ?_
  obtain ⟨⟨threads, batch⟩, y⟩ := e
  rw [mem_values_iff_value?, mem_values_iff_value?, h threads batch]

theorem labels_eq_map (t : ResultTable α) (metric : Metric) :
    t.labels = (t.values metric).map Prod.fst := by
  rw [LabelMap.labels, values, List.map_map]
  rfl

theorem maxBatch?_eq_foldl (t : ResultTable α) (metric : Metric) :
    t.maxBatch? = ((t.values metric).map fun e => e.1.batch).foldl
      (fun m b => some (m.elim b (max · b))) none := by
  rw [maxBatch?, values, List.map_map, List.foldl_map]
  rfl

end ResultTable

namespace Sweep

theorem ofValues_cons_same {c : ThreadCount} {l : Label} {v : α} {rest : List (Label × α)}
    (hl : l.threads = c) (h : ∀ e ∈ rest, e.1.threads = c) :
    ofValues ((l, v) :: rest) = [⟨c, (l.batch, v) :: rest.map fun e => (e.1.batch, e.2)⟩] := by
  induction rest generalizing l v with
  | nil => rw [ofValues_eq_joined, ofValues, joined, hl, List.map_nil]
  | cons e rest ih =>
    obtain ⟨he, hrest⟩ := List.forall_mem_cons.mp h
    rw [ofValues_eq_joined, ih he hrest, joined_same hl.symm, hl]
    rfl

/-- Leaving out all thread counts but one before the values are cut comes to the same as after. -/
theorem filter_ofValues {values : List (Label × α)} (h : Ascending values) (c : ThreadCount) :
    (ofValues values).filter (fun s => s.threads = c) =
      ofValues (values.filter fun e => e.1.threads = c) := by
  induction values with
  | nil => rfl
  | cons e rest ih =>
    obtain ⟨l, v⟩ := e
    have hrest := ih (List.pairwise_cons.mp h).2
    cases ofValues_cons l v rest with
    | inl hjoined =>
      obtain ⟨s, ss, hsplit, hs, hcons⟩ := hjoined
      rw [hsplit] at hrest
      by_cases hc : l.threads = c
      · rw [List.filter_cons_of_pos (by simp [hs, hc])] at hrest
        rw [hcons, List.filter_cons_of_pos (by simp [hc]), List.filter_cons_of_pos (by simp [hc]),
          ofValues_eq_joined, ← hrest]
        exact (joined_same hs).symm
      · rw [List.filter_cons_of_neg (by simp [hs, hc])] at hrest
        rw [hcons, List.filter_cons_of_neg (by simp [hc]), List.filter_cons_of_neg (by simp [hc]),
          hrest]
    | inr hopened =>
      obtain ⟨-, hcons⟩ := hopened
      by_cases hc : l.threads = c
      · -- All sweeps behind one of the count stand above it.
        have habove := ascending_ofValues h
        rw [hcons, List.pairwise_cons] at habove
        have hnone : (ofValues rest).filter (fun s => s.threads = c) = [] := by
          rw [List.filter_eq_nil_iff]
          intro s hs hsame
          have hlt := habove.1 s hs
          rw [hc, of_decide_eq_true hsame] at hlt
          exact ThreadCount.not_lt_self c hlt
        rw [hcons, List.filter_cons_of_pos (by simp [hc]), List.filter_cons_of_pos (by simp [hc]),
          ofValues_eq_joined, ← hrest, hnone]
        rfl
      · rw [hcons, List.filter_cons_of_neg (by simp [hc]), List.filter_cons_of_neg (by simp [hc]),
          hrest]

end Sweep

def Panel.seriesFor (p : Panel α) (c : ThreadCount) : List (Series α) :=
  p.series.filter fun s => s.label = c.text

variable [Scalar α]

namespace Panel.ComposedOf
variable {p : Panel α} {t : ResultTable α} {degree : Nat} {step : α} {metric : Metric}
  {fs : List (FittedSweep α)} (h : p.ComposedOf t degree step metric fs) (c : ThreadCount)
include h

theorem seriesFor : p.seriesFor c =
    (fs.filter fun f => f.sweep.threads = c).map FittedSweep.series := by
  have hlabel (f : FittedSweep α) : f.series.label = c.text ↔ f.sweep.threads = c := by
    obtain ⟨⟨threads, points⟩, curve, notes⟩ := f
    cases threads
    cases c
    simp [FittedSweep.series]
  rw [Panel.seriesFor, h.series, List.filter_map]
  congr 1
  refine List.filter_congr fun f _ => ?_
  simp [hlabel]

theorem fitted_at : fitSweeps? (Sweep.ofValues (t.valuesAt metric c)) degree step =
    some (fs.filter fun f => f.sweep.threads = c) := by
  rw [ResultTable.valuesAt, ← Sweep.filter_ofValues (Sweep.ascending_values t metric)]
  exact fitSweeps?_filter h.fitted fun s => s.threads = c

/-- A thread count has one series where it has configurations, and elsewhere none. -/
theorem seriesFor_cases :
    ((∃ batch, ⟨c, batch⟩ ∈ t.labels) ∧ ∃ s, p.seriesFor c = [s]) ∨
    (∀ batch, ⟨c, batch⟩ ∉ t.labels) ∧ p.seriesFor c = [] := by
  have hvalues (e : Label × α) :
      e ∈ t.valuesAt metric c ↔ e ∈ t.values metric ∧ e.1.threads = c := by
    simp [ResultTable.valuesAt, List.mem_filter]
  have hsweeps := map_sweep_of_fitSweeps? (h.fitted_at c)
  rw [h.seriesFor, ResultTable.labels_eq_map t metric]
  cases hat : t.valuesAt metric c with
  | nil =>
    rw [hat, Sweep.ofValues, List.map_eq_nil_iff] at hsweeps
    refine .inr ⟨fun batch hmem => ?_, by rw [hsweeps, List.map_nil]⟩
    obtain ⟨e, he, hlabel⟩ := List.mem_map.mp hmem
    have hin := (hvalues e).mpr ⟨he, by rw [hlabel]⟩
    simp [hat] at hin
  | cons e rest =>
    obtain ⟨l, v⟩ := e
    rw [hat] at hvalues hsweeps
    obtain ⟨hmem, hl⟩ := (hvalues (l, v)).mp List.mem_cons_self
    have hrest (e : Label × α) (he : e ∈ rest) : e.1.threads = c :=
      ((hvalues e).mp (List.mem_cons_of_mem _ he)).2
    rw [Sweep.ofValues_cons_same hl hrest, List.map_eq_singleton_iff] at hsweeps
    obtain ⟨f, hf, -⟩ := hsweeps
    refine .inl ⟨⟨l.batch, List.mem_map.mpr ⟨(l, v), hmem, by rw [← hl]⟩⟩, f.series, ?_⟩
    rw [hf, List.map_singleton]

end Panel.ComposedOf

section
variable {t u : ResultTable α} {degree : Nat} {step : α} {metric : Metric} {p q : Panel α}
  {fs gs : List (FittedSweep α)}

theorem Panel.ComposedOf.congr (hp : p.ComposedOf t degree step metric fs)
    (hq : q.ComposedOf u degree step metric gs) (h : t.values metric = u.values metric) : p = q := by
  have hsweeps : Sweep.ofTable t metric = Sweep.ofTable u metric := by
    rw [Sweep.ofTable, Sweep.ofTable, h]
  have hfitted := hp.fitted
  rw [hsweeps, hq.fitted, Option.some.injEq] at hfitted
  obtain ⟨m, hm, hp⟩ := hp.composed
  obtain ⟨n, hn, hq⟩ := hq.composed
  rw [ResultTable.maxBatch?_eq_foldl t metric, h, ← ResultTable.maxBatch?_eq_foldl, hn,
    Option.some.injEq] at hm
  rw [hp, hq, hm, hsweeps, hfitted]

end

/-- Where two tables agree on the configurations of one thread count, the series of that count is the
same in both figures, whatever else is in the tables; where they agree on all values of a metric, so
is its panel as a whole. A count has one series if it has configurations, and else none. -/
theorem series_keep_to_themselves (t u : ResultTable α) (degree : Nat) (step : α) (metric : Metric)
    {f g : Figure α} (hf : Figure.ofTable t degree step = .ok f)
    (hg : Figure.ofTable u degree step = .ok g) :
    ∃ p q, f.panel? metric = some p ∧ g.panel? metric = some q ∧
      (∀ c, ResultTable.AgreeAt t u metric c → p.seriesFor c = q.seriesFor c) ∧
      ((∀ c, ResultTable.AgreeAt t u metric c) → p = q) ∧
      ∀ c, ((∃ batch, ⟨c, batch⟩ ∈ t.labels) ∧ ∃ s, p.seriesFor c = [s]) ∨
        (∀ batch, ⟨c, batch⟩ ∉ t.labels) ∧ p.seriesFor c = [] := by
  obtain ⟨p, fs, hp, hfs⟩ := exists_panel hf metric
  obtain ⟨q, gs, hq, hgs⟩ := exists_panel hg metric
  refine ⟨p, q, hp, hq, fun c h => ?_, fun h => hfs.congr hgs (ResultTable.values_eq h),
    hfs.seriesFor_cases⟩
  have hsame := hfs.fitted_at c
  rw [ResultTable.agreeAt_iff.mp h, hgs.fitted_at c, Option.some.injEq] at hsame
  rw [hfs.seriesFor, hgs.seriesFor, hsame]

/-- The three batches with other throughputs, and with two threads in the place of four. -/
def otherBatches : ResultTable Float :=
  ⟨[(.of "1" 8, ⟨1, 99⟩), (.of "1" 16, ⟨2, 7⟩), (.of "2" 64, ⟨5, 3⟩)], by
    simp [Ascending]
    decide +kernel⟩

def otherRates : ResultTable Float :=
  ⟨[(.of "1" 8, ⟨1, 99⟩), (.of "1" 16, ⟨2, 7⟩), (.of "4" 8, ⟨1, 3⟩)], by
    simpa [Ascending, threeBatches] using threeBatches.ascending⟩

theorem one_thread_keeps_to_itself :
    ResultTable.AgreeAt threeBatches otherBatches .runtime ⟨"1"⟩ ∧
    (∀ c, ResultTable.AgreeAt threeBatches otherRates .runtime c) ∧
    ∃ f g k p q s, Figure.ofTable threeBatches 10 0.01 = .ok f ∧
      Figure.ofTable otherBatches 10 0.01 = .ok g ∧ Figure.ofTable otherRates 10 0.01 = .ok k ∧
      f.panel? .runtime = some p ∧ g.panel? .runtime = some q ∧ k.panel? .runtime = some p ∧
      p.seriesFor ⟨"1"⟩ = [s] ∧ q.seriesFor ⟨"1"⟩ = [s] := by
  have hbatches : ResultTable.AgreeAt threeBatches otherBatches .runtime ⟨"1"⟩ := by
    rw [ResultTable.agreeAt_iff]
    simp [ResultTable.valuesAt, ResultTable.values, threeBatches, otherBatches, Label.of, Metrics.get]
  have hrates (c : ThreadCount) : ResultTable.AgreeAt threeBatches otherRates .runtime c := by
    rw [ResultTable.agreeAt_iff]
    simp [ResultTable.valuesAt, ResultTable.values, threeBatches, otherRates, Metrics.get]
  obtain ⟨f, hf⟩ : ∃ f, Figure.ofTable threeBatches 10 0.01 = .ok f :=
    exists_figure_of_le (by simp [threeBatches]) (by decide +kernel)
  obtain ⟨g, hg⟩ : ∃ g, Figure.ofTable otherBatches 10 0.01 = .ok g :=
    exists_figure_of_le (by simp [otherBatches]) (by decide +kernel)
  obtain ⟨k, hk⟩ : ∃ k, Figure.ofTable otherRates 10 0.01 = .ok k :=
    exists_figure_of_le (by simp [otherRates]) (by decide +kernel)
  obtain ⟨p, q, hp, hq, hseries, -, hcases⟩ :=
    series_keep_to_themselves threeBatches otherBatches 10 0.01 .runtime hf hg
  obtain ⟨p', r, hp', hr, -, hpanel, -⟩ :=
    series_keep_to_themselves threeBatches otherRates 10 0.01 .runtime hf hk
  rw [hp, Option.some.injEq] at hp'
  rw [← hpanel hrates, ← hp'] at hr
  cases hcases ⟨"1"⟩ with
  | inl hone =>
    obtain ⟨-, s, hs⟩ := hone
    exact ⟨hbatches, hrates, f, g, k, p, q, s, hf, hg, hk, hp, hq, hr, hs,
      hseries ⟨"1"⟩ hbatches ▸ hs⟩
  | inr hnone =>
    refine absurd ?_ (hnone.1 8)
    simp [LabelMap.labels, threeBatches, Label.of]

end SweepReport
