import SweepReport.Sweep

/-! The sweeps of a table. They cut its values where the thread count changes, so that each sweep has
a count of its own, and the cuts are the same for every metric. -/
namespace SweepReport
open Std
variable {α β : Type}

theorem Label.lt_iff {l k : Label} :
    l < k ↔ l.threads < k.threads ∨ l.threads = k.threads ∧ l.batch < k.batch := by
  have hbatch : compare l.batch k.batch = .lt ↔ l.batch < k.batch := Std.compare_eq_lt
  change (compare l.threads k.threads).then (compare l.batch k.batch) = .lt ↔
    compare l.threads k.threads = .lt ∨ _
  rw [Ordering.then_eq_lt, LawfulEqOrd.compare_eq_iff_eq, hbatch]

theorem ThreadCount.not_lt_self (c : ThreadCount) : ¬ c < c := fun h => by
  have h : compare c c = .lt := h
  simp [ReflCmp.compare_self] at h

namespace Sweep

def labelled (s : Sweep α) : List (Label × α) := s.points.map fun p => (⟨s.threads, p.1⟩, p.2)

def map (f : α → β) (s : Sweep α) : Sweep β := ⟨s.threads, s.points.map fun p => (p.1, f p.2)⟩

/-- A value joins the first sweep of what follows it, or opens a sweep of its own. -/
theorem ofValues_cons (l : Label) (v : α) (rest : List (Label × α)) :
    (∃ s ss, ofValues rest = s :: ss ∧ s.threads = l.threads ∧
      ofValues ((l, v) :: rest) = ⟨l.threads, (l.batch, v) :: s.points⟩ :: ss) ∨
    ((∀ s ∈ (ofValues rest).head?, s.threads ≠ l.threads) ∧
      ofValues ((l, v) :: rest) = ⟨l.threads, [(l.batch, v)]⟩ :: ofValues rest) := by
  cases h : ofValues rest with
  | nil => exact .inr ⟨by simp, by simp only [ofValues, h]⟩
  | cons s ss =>
    by_cases hs : s.threads = l.threads
    · exact .inl ⟨s, ss, rfl, hs, by simp only [ofValues, h, hs, if_true]⟩
    · exact .inr ⟨by simpa using hs, by simp only [ofValues, h, hs, if_false]⟩

/-- Cutting into sweeps loses no value, adds none and leaves them in their order. -/
theorem flatMap_labelled_ofValues (values : List (Label × α)) :
    (ofValues values).flatMap labelled = values := by
  induction values with
  | nil => rfl
  | cons e rest ih =>
    obtain ⟨l, v⟩ := e
    cases ofValues_cons l v rest with
    | inl h =>
      obtain ⟨s, ss, hrest, hs, hjoined⟩ := h
      rw [hrest, List.flatMap_cons] at ih
      rw [hjoined, List.flatMap_cons]
      calc _ = (l, v) :: (s.labelled ++ ss.flatMap labelled) := by simp [labelled, hs]
        _ = (l, v) :: rest := by rw [ih]
    | inr h =>
      rw [h.2, List.flatMap_cons, ih]
      rfl

theorem points_ne_nil {values : List (Label × α)} {s : Sweep α} (h : s ∈ ofValues values) :
    s.points ≠ [] := by
  induction values with
  | nil => simp [ofValues] at h
  | cons e rest ih =>
    obtain ⟨l, v⟩ := e
    cases ofValues_cons l v rest with
    | inl hcons =>
      obtain ⟨r, rs, hrest, -, hjoined⟩ := hcons
      rw [hjoined] at h
      cases List.mem_cons.mp h with
      | inl h => simp [h]
      | inr h => exact ih (hrest ▸ List.mem_cons_of_mem r h)
    | inr hcons =>
      rw [hcons.2] at h
      cases List.mem_cons.mp h with
      | inl h => simp [h]
      | inr h => exact ih h

theorem exists_mem_values {values : List (Label × α)} {s : Sweep α} (h : s ∈ ofValues values) :
    ∃ e ∈ values, e.1.threads = s.threads := by
  obtain ⟨p, hp⟩ := List.exists_mem_of_ne_nil s.points (points_ne_nil h)
  refine ⟨(⟨s.threads, p.1⟩, p.2), ?_, rfl⟩
  rw [← flatMap_labelled_ofValues values]
  exact List.mem_flatMap.mpr ⟨s, h, List.mem_map.mpr ⟨p, hp, rfl⟩⟩

/-- Values in the order of their labels give sweeps in the order of their thread counts. -/
theorem ascending_ofValues {values : List (Label × α)} (h : Ascending values) :
    (ofValues values).Pairwise fun s r => s.threads < r.threads := by
  induction values with
  | nil => exact List.Pairwise.nil
  | cons e rest ih =>
    obtain ⟨l, v⟩ := e
    obtain ⟨hl, hrest⟩ := List.pairwise_cons.mp h
    have hsweeps := ih hrest
    cases ofValues_cons l v rest with
    | inl hcons =>
      obtain ⟨s, ss, hsplit, hs, hjoined⟩ := hcons
      rw [hsplit, List.pairwise_cons, hs] at hsweeps
      rw [hjoined]
      exact List.pairwise_cons.mpr hsweeps
    | inr hcons =>
      obtain ⟨hne, hopened⟩ := hcons
      rw [hopened]
      -- A label that is not below in the count of the next is above in its batch only.
      have hfirst (s : Sweep α) (hs : s ∈ ofValues rest) (hcount : s.threads ≠ l.threads) :
          l.threads < s.threads := by
        obtain ⟨k, hk, hthreads⟩ := exists_mem_values hs
        cases Label.lt_iff.mp (hl k hk) with
        | inl hlt => exact hthreads ▸ hlt
        | inr heq => exact absurd (heq.1.trans hthreads).symm hcount
      refine List.pairwise_cons.mpr ⟨fun r hr => ?_, hsweeps⟩
      cases hsplit : ofValues rest with
      | nil => simp [hsplit] at hr
      | cons s ss =>
        have hbelow : l.threads < s.threads :=
          hfirst s (by simp [hsplit]) (hne s (by simp [hsplit]))
        rw [hsplit] at hr hsweeps
        cases List.mem_cons.mp hr with
        | inl hr => exact hr ▸ hbelow
        | inr hr => exact TransCmp.lt_trans hbelow ((List.pairwise_cons.mp hsweeps).1 r hr)

/-- Where to cut is read off the labels alone. -/
theorem ofValues_map (f : α → β) (values : List (Label × α)) :
    ofValues (values.map fun e => (e.1, f e.2)) = (ofValues values).map (map f) := by
  induction values with
  | nil => rfl
  | cons e rest ih =>
    obtain ⟨l, v⟩ := e
    cases h : ofValues rest with
    | nil => simp [ofValues, ih, h, map]
    | cons s ss =>
      by_cases hs : s.threads = l.threads
      · simp [ofValues, ih, h, hs, map]
      · simp [ofValues, ih, h, hs, map]

theorem ofTable_eq_map (t : ResultTable α) (metric : Metric) :
    ofTable t metric = (ofValues t.entries).map (map fun m => m.get metric) := by
  rw [← ofValues_map]
  rfl

theorem ascending_values (t : ResultTable α) (metric : Metric) : Ascending (t.values metric) := by
  rw [ResultTable.values, Ascending, List.pairwise_map]
  exact t.ascending

theorem ascending_ofTable (t : ResultTable α) (metric : Metric) :
    (ofTable t metric).Pairwise fun s r => s.threads < r.threads :=
  ascending_ofValues (ascending_values t metric)

end Sweep
end SweepReport
