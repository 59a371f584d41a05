import Mathlib.Data.List.Pairwise
import SweepReport.Proofs.Figure.Fitted
import SweepReport.Proofs.Figure.Grouping
import SweepReport.Proofs.Trend.Walk

/-! The range of a sweep. Its batches ascend, so the first and the last of them are the least and the
greatest, and the trend line is drawn from one to the other. -/
namespace SweepReport.Sweep
variable {α : Type}

/-- The least batch of the sweep and the greatest. -/
structure Spans (s : Sweep α) (a b : UInt64) : Prop where
  least_mem : a ∈ s.points.map Prod.fst
  greatest_mem : b ∈ s.points.map Prod.fst
  between : ∀ n ∈ s.points.map Prod.fst, a ≤ n ∧ n ≤ b

section
variable {s : Sweep α}

theorem exists_spans (hne : s.points ≠ []) (h : s.points.Pairwise fun p q => p.1 < q.1) :
    ∃ a b, s.Spans a b ∧ (s.points.map Prod.fst).head? = some a ∧
      (s.points.map Prod.fst).getLast? = some b := by
  obtain ⟨ns, hns⟩ : ∃ ns, ns = s.points.map Prod.fst := ⟨_, rfl⟩
  have hnsne : ns ≠ [] := fun hnil => hne (List.map_eq_nil_iff.mp (hns ▸ hnil))
  have hle : ns.Pairwise fun m n => m ≤ n :=
    hns ▸ List.pairwise_map.mpr (h.imp fun {p q} hlt => UInt64.le_of_lt hlt)
  have hrefl : Std.Refl fun m n : UInt64 => m ≤ n := ⟨UInt64.le_refl⟩
  refine ⟨ns.head hnsne, ns.getLast hnsne, ⟨?_, ?_, fun n hn => ?_⟩, ?_, ?_⟩
  · exact hns ▸ List.head_mem hnsne
  · exact hns ▸ List.getLast_mem hnsne
  · rw [← hns] at hn
    exact ⟨hle.rel_head hn, hle.rel_getLast hn⟩
  · rw [← hns, List.head?_eq_some_head]
  · rw [← hns, List.getLast?_eq_some_getLast]

theorem Spans.unique {a b c d : UInt64} (h : s.Spans a b) (h' : s.Spans c d) : a = c ∧ b = d :=
  ⟨UInt64.le_antisymm (h.between c h'.least_mem).1 (h'.between a h.least_mem).1,
    UInt64.le_antisymm (h'.between b h.greatest_mem).2 (h.between d h'.greatest_mem).2⟩

/-- The range is a point where there is one batch. -/
theorem Spans.eq_iff {a b : UInt64} (hspans : s.Spans a b)
    (h : s.points.Pairwise fun p q => p.1 < q.1) : a = b ↔ s.points.length = 1 := by
  obtain ⟨hleast, hgreatest, hbetween⟩ := hspans
  have hsame (hab : a = b) : ∀ p ∈ s.points, p.1 = a := fun p hp => by
    obtain ⟨hle, hge⟩ := hbetween p.1 (List.mem_map_of_mem hp)
    exact UInt64.le_antisymm (hab ▸ hge) hle
  cases hpoints : s.points with
  | nil => simp [hpoints] at hleast
  | cons p ps =>
    cases ps with
    | nil =>
      rw [hpoints] at hleast hgreatest
      exact iff_of_true ((List.mem_singleton.mp hleast).trans (List.mem_singleton.mp hgreatest).symm) rfl
    | cons q ps =>
      refine iff_of_false (fun hab => ?_) (by simp)
      rw [hpoints] at h hsame
      have hlt : p.1 < q.1 := (List.pairwise_cons.mp h).1 q List.mem_cons_self
      rw [hsame hab p List.mem_cons_self,
        hsame hab q (List.mem_cons_of_mem p List.mem_cons_self)] at hlt
      exact UInt64.lt_irrefl a hlt

end

variable [Scalar α] {s : Sweep α} {t : ResultTable α} {metric : Metric}

theorem fitted?_eq (hs : s ∈ ofTable t metric) (degree : Nat) (step : α) :
    ∃ a b, s.Spans a b ∧ s.fitted? degree step =
      ((Trend.fit? s.xs s.ys degree).elim (some []) fun p =>
        p.sample? (Scalar.ofWord a) (Scalar.ofWord b) step).map fun curve =>
          ⟨s, curve, (Fit.ofSamples s.xs s.ys degree).notes⟩ := by
  obtain ⟨a, b, hspans, hfirst, hlast⟩ :=
    exists_spans (points_ne_nil hs) (ascending_points (ascending_values t metric) hs)
  have hxs : s.xs = (s.points.map Prod.fst).map Scalar.ofWord := by
    rw [xs, List.map_map]
    rfl
  have hstart : s.xs.head? = some (Scalar.ofWord a) := by rw [hxs, List.head?_map, hfirst]; rfl
  have hstop : s.xs.getLast? = some (Scalar.ofWord b) := by rw [hxs, List.getLast?_map, hlast]; rfl
  refine ⟨a, b, hspans, ?_⟩
  rw [Trend.fit?, fitted?]
  simp only [hstart, hstop]
  cases (Fit.ofSamples s.xs s.ys degree).trend <;> rfl

/-- A sweep is fitted unless it has a trend whose sampling never ends. -/
theorem fitted?_eq_some_iff (hs : s ∈ ofTable t metric) {degree : Nat} {step : α}
    {f : FittedSweep α} : s.fitted? degree step = some f ↔
      ∃ a b, s.Spans a b ∧
        ((Trend.fit? s.xs s.ys degree).elim (some []) fun p =>
          p.sample? (Scalar.ofWord a) (Scalar.ofWord b) step) = some f.curve ∧
        f = ⟨s, f.curve, (Fit.ofSamples s.xs s.ys degree).notes⟩ := by
  obtain ⟨a, b, hspans, hfitted⟩ := fitted?_eq hs degree step
  rw [hfitted, Option.map_eq_some_iff]
  constructor
  · rintro ⟨curve, hcurve, rfl⟩
    exact ⟨a, b, hspans, hcurve, rfl⟩
  · rintro ⟨c, d, hspans', hcurve, hf⟩
    obtain ⟨rfl, rfl⟩ := hspans.unique hspans'
    exact ⟨f.curve, hcurve, hf.symm⟩

end SweepReport.Sweep
