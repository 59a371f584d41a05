import Mathlib.Data.List.Nodup
import SweepReport.Proofs.Figure.Grouping

/-! The sweeps of a table as its parts. Each configuration is in one of them, once and with its own
value, and put end to end they are the table again. -/
namespace SweepReport.Sweep
variable {α : Type}

/-- The sweeps cut the values into parts, one for each thread count, and keep them in order. -/
structure Partitions (sweeps : List (Sweep α)) (values : List (Label × α)) : Prop where
  occupied : ∀ s ∈ sweeps, s.points ≠ []
  ascending : sweeps.Pairwise fun s r => s.threads < r.threads
  batches_ascend : ∀ s ∈ sweeps, s.points.Pairwise fun p q => p.1 < q.1
  joined : (sweeps.flatMap fun s => s.points.map fun p => (s.threads, p.1, p.2)) =
    values.map fun e => (e.1.threads, e.1.batch, e.2)
  /-- A value is in the sweep of its thread count and no other, as the only one of its batch. -/
  lands : ∀ l v, (l, v) ∈ values → ∃ s ∈ sweeps, s.threads = l.threads ∧
    s.points.filter (fun p => p.1 = l.batch) = [(l.batch, v)] ∧
    ∀ r ∈ sweeps, r.threads = l.threads → r = s

def outline (s : Sweep α) : ThreadCount × List UInt64 := (s.threads, s.points.map Prod.fst)

theorem filter_batch {points : List (UInt64 × α)} {b : UInt64} {v : α}
    (h : points.Pairwise fun p q => p.1 < q.1) (hmem : (b, v) ∈ points) :
    points.filter (fun p => p.1 = b) = [(b, v)] := by
  induction points with
  | nil => simp at hmem
  | cons p points ih =>
    obtain ⟨hp, hpoints⟩ := List.pairwise_cons.mp h
    cases List.mem_cons.mp hmem with
    | inl hfirst =>
      have hrest : points.filter (fun q => q.1 = b) = [] := by
        refine List.filter_eq_nil_iff.mpr fun q hq heq => ?_
        have hlt := hp q hq
        rw [← hfirst, of_decide_eq_true heq] at hlt
        exact UInt64.lt_irrefl b hlt
      rw [← hfirst, List.filter_cons_of_pos (by simp), hrest]
    | inr hlater =>
      have hne : p.1 ≠ b := UInt64.ne_of_lt (hp (b, v) hlater)
      rw [List.filter_cons_of_neg (by simpa using hne), ih hpoints hlater]

theorem eq_of_threads {sweeps : List (Sweep α)} {s r : Sweep α}
    (h : sweeps.Pairwise fun s r => s.threads < r.threads) (hs : s ∈ sweeps) (hr : r ∈ sweeps)
    (hthreads : r.threads = s.threads) : r = s := by
  have hnodup : (sweeps.map threads).Nodup := by
    refine List.pairwise_map.mpr (h.imp fun {s r} hlt heq => ?_)
    rw [heq] at hlt
    exact ThreadCount.not_lt_self _ hlt
  exact List.inj_on_of_nodup_map hnodup hr hs hthreads

theorem partitions_ofValues {values : List (Label × α)} (h : Ascending values) :
    Partitions (ofValues values) values where
  occupied _ := points_ne_nil
  ascending := ascending_ofValues h
  batches_ascend _ := ascending_points h
  joined := by
    have hsweep (s : Sweep α) : (s.points.map fun p => (s.threads, p.1, p.2)) =
        s.labelled.map fun e => (e.1.threads, e.1.batch, e.2) := by
      simp [labelled]
    simp only [hsweep]
    rw [← List.map_flatMap, flatMap_labelled_ofValues]
  lands l v hmem := by
    rw [← flatMap_labelled_ofValues values] at hmem
    obtain ⟨s, hs, hlabelled⟩ := List.mem_flatMap.mp hmem
    obtain ⟨p, hp, heq⟩ := List.mem_map.mp hlabelled
    cases heq
    exact ⟨s, hs, rfl, filter_batch (ascending_points h hs) hp,
      fun r hr => eq_of_threads (ascending_ofValues h) hs hr⟩

theorem outline_map {β : Type} (f : α → β) (s : Sweep α) : (s.map f).outline = s.outline := by
  simp [outline, map]

/-- The sweeps of a table are its partition by thread count, in order, and what is put together by
thread count and then sorted by batch is the same sweeps. For another metric they have other values
and are the same otherwise. -/
theorem ofTable_partitions (t : ResultTable α) (metric : Metric) :
    Partitions (ofTable t metric) (t.values metric) ∧
    grouped (t.values metric) = ofTable t metric ∧
    ∀ other, (ofTable t other).map outline = (ofTable t metric).map outline := by
  refine ⟨partitions_ofValues (ascending_values t metric), grouped_eq_ofTable t metric,
    fun other => ?_⟩
  rw [ofTable_eq_map, ofTable_eq_map, List.map_map, List.map_map]
  exact List.map_congr_left fun s _ => by
    rw [Function.comp_apply, Function.comp_apply, outline_map, outline_map]

end SweepReport.Sweep
