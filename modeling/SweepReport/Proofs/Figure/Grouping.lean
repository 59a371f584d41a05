import SweepReport.Proofs.Figure.Sweeps

/-! Sweeps by way of a map. Values that are put into groups kept by thread count, in the order of the
counts, and are then sorted by batch within each group, come out as the sweeps of their table. -/
namespace SweepReport.Sweep
open Std
variable {α : Type}

/-- Adds a point at the end of its group, which is made at its place where it is missing. -/
def push (l : Label) (v : α) : List (Sweep α) → List (Sweep α)
  | [] => [⟨l.threads, [(l.batch, v)]⟩]
  | s :: ss =>
    match compare l.threads s.threads with
    | .lt => ⟨l.threads, [(l.batch, v)]⟩ :: s :: ss
    | .eq => ⟨s.threads, s.points ++ [(l.batch, v)]⟩ :: ss
    | .gt => s :: push l v ss

def collected (values : List (Label × α)) : List (Sweep α) :=
  values.foldl (fun ss e => push e.1 e.2 ss) []

/-- Ordered by batch, equal batches side by side as they came. -/
def sorted (s : Sweep α) : Sweep α :=
  ⟨s.threads, s.points.mergeSort fun p q => (compare p.1 q.1).isLE⟩

def grouped (values : List (Label × α)) : List (Sweep α) := (collected values).map sorted

section
variable {l : Label} {v : α} {c : ThreadCount} {points : List (UInt64 × α)} {ss : List (Sweep α)}

theorem push_same (h : c = l.threads) :
    push l v (⟨c, points⟩ :: ss) = ⟨c, points ++ [(l.batch, v)]⟩ :: ss := by
  have hcompare : compare l.threads c = .eq := LawfulEqOrd.compare_eq_iff_eq.mpr h.symm
  simp only [push, hcompare]

theorem push_later (h : c < l.threads) :
    push l v (⟨c, points⟩ :: ss) = ⟨c, points⟩ :: push l v ss := by
  have hcompare : compare l.threads c = .gt := OrientedCmp.gt_iff_lt.mpr h
  simp only [push, hcompare]

/-- What the first value does to the sweeps of the others. -/
def joined (k : Label) (w : α) : List (Sweep α) → List (Sweep α)
  | [] => [⟨k.threads, [(k.batch, w)]⟩]
  | s :: ss =>
    if s.threads = k.threads then ⟨k.threads, (k.batch, w) :: s.points⟩ :: ss
    else ⟨k.threads, [(k.batch, w)]⟩ :: s :: ss

theorem ofValues_eq_joined (k : Label) (w : α) (rest : List (Label × α)) :
    ofValues ((k, w) :: rest) = joined k w (ofValues rest) := by
  cases h : ofValues rest <;> simp only [ofValues, joined, h]

theorem joined_same (h : c = l.threads) :
    joined l v (⟨c, points⟩ :: ss) = ⟨l.threads, (l.batch, v) :: points⟩ :: ss := by
  simp only [joined, h, if_true]

theorem joined_other (h : c ≠ l.threads) :
    joined l v (⟨c, points⟩ :: ss) = ⟨l.threads, [(l.batch, v)]⟩ :: ⟨c, points⟩ :: ss := by
  simp only [joined, h, if_false]

end

/-- With the thread counts in order, the first value and the last meet in one sweep at most, and
there at its two ends. -/
theorem joined_push {k l : Label} {w v : α} {ss : List (Sweep α)}
    (hkl : k.threads < l.threads ∨ k.threads = l.threads)
    (hks : ∀ s ∈ ss.head?, k.threads < s.threads ∨ k.threads = s.threads)
    (hsl : ∀ s ∈ ss.head?, s.threads < l.threads ∨ s.threads = l.threads) :
    joined k w (push l v ss) = push l v (joined k w ss) := by
  cases ss with
  | nil =>
    rw [push, joined]
    cases hkl with
    | inl hlt =>
      have hne : l.threads ≠ k.threads := fun heq => ThreadCount.not_lt_self _ (heq ▸ hlt)
      rw [joined_other hne, push_later hlt, push]
    | inr heq =>
      rw [joined_same heq.symm, push_same heq]
      rfl
  | cons s ss =>
    obtain ⟨c, points⟩ := s
    have hkc : k.threads < c ∨ k.threads = c := hks ⟨c, points⟩ rfl
    have hcl : c < l.threads ∨ c = l.threads := hsl ⟨c, points⟩ rfl
    by_cases hc : c = k.threads
    · rw [joined_same hc]
      cases hcl with
      | inl hlt =>
        have hbelow : k.threads < l.threads := hc ▸ hlt
        rw [push_later hlt, joined_same hc, push_later hbelow]
      | inr heq =>
        have hall : k.threads = l.threads := hc.symm.trans heq
        rw [push_same heq, joined_same hc, push_same hall, List.cons_append]
    · have hlt : k.threads < c := hkc.resolve_right (Ne.symm hc)
      rw [joined_other hc]
      cases hcl with
      | inl hcl =>
        have hbelow : k.threads < l.threads := TransCmp.lt_trans hlt hcl
        rw [push_later hcl, joined_other hc, push_later hbelow, push_later hcl]
      | inr heq =>
        have hbelow : k.threads < l.threads := heq ▸ hlt
        rw [push_same heq, joined_other hc, push_later hbelow, push_same heq]

theorem threads_lt_or_eq {l k : Label} (h : l < k) :
    l.threads < k.threads ∨ l.threads = k.threads :=
  (Label.lt_iff.mp h).imp_right And.left

/-- Where labels ascend, the last value goes to the last group or opens one behind it. -/
theorem ofValues_concat {values : List (Label × α)} {l : Label} {v : α}
    (h : Ascending (values ++ [(l, v)])) :
    ofValues (values ++ [(l, v)]) = push l v (ofValues values) := by
  -- The last value is put in before the first one instead of after it, all along the list.
  induction values with
  | nil => rfl
  | cons e rest ih =>
    obtain ⟨k, w⟩ := e
    obtain ⟨hk, htail⟩ := List.pairwise_cons.mp h
    have hkl : k.threads < l.threads ∨ k.threads = l.threads :=
      threads_lt_or_eq (hk (l, v) (by simp))
    have hks : ∀ s ∈ (ofValues rest).head?, k.threads < s.threads ∨ k.threads = s.threads := by
      intro s hs
      obtain ⟨d, hd, hthreads⟩ := exists_mem_values (List.mem_of_mem_head? hs)
      exact hthreads ▸ threads_lt_or_eq (hk d (List.mem_append_left _ hd))
    have hsl : ∀ s ∈ (ofValues rest).head?, s.threads < l.threads ∨ s.threads = l.threads := by
      intro s hs
      obtain ⟨d, hd, hthreads⟩ := exists_mem_values (List.mem_of_mem_head? hs)
      exact hthreads ▸ threads_lt_or_eq ((List.pairwise_append.mp htail).2.2 d hd (l, v) (by simp))
    calc ofValues ((k, w) :: (rest ++ [(l, v)]))
      _ = joined k w (ofValues (rest ++ [(l, v)])) := ofValues_eq_joined k w _
      _ = joined k w (push l v (ofValues rest)) := by rw [ih htail]
      _ = push l v (joined k w (ofValues rest)) := joined_push hkl hks hsl
      _ = push l v (ofValues ((k, w) :: rest)) := by rw [ofValues_eq_joined]

theorem collected_eq_ofValues {values : List (Label × α)} (h : Ascending values) :
    collected values = ofValues values := by
  -- At every cut of the values, the groups so far are the sweeps of what lies before it.
  have hprefix : ∀ before after, values = before ++ after →
      after.foldl (fun ss e => push e.1 e.2 ss) (ofValues before) = ofValues values := by
    intro before after
    induction after generalizing before with
    | nil => simp +contextual
    | cons e after ih =>
      intro hsplit
      have hsplit' : values = (before ++ [e]) ++ after := by rw [hsplit, List.append_assoc]; rfl
      have hbefore : Ascending (before ++ [e]) :=
        h.sublist (hsplit' ▸ List.sublist_append_left _ _)
      rw [List.foldl_cons, ← ofValues_concat hbefore]
      exact ih (before ++ [e]) hsplit'
  exact hprefix [] values rfl

theorem ascending_labelled {values : List (Label × α)} (h : Ascending values) {s : Sweep α}
    (hs : s ∈ ofValues values) : Ascending s.labelled := by
  rw [← flatMap_labelled_ofValues values] at h
  exact (List.pairwise_flatMap.mp h).1 s hs

theorem ascending_points {values : List (Label × α)} (h : Ascending values) {s : Sweep α}
    (hs : s ∈ ofValues values) : s.points.Pairwise fun p q => p.1 < q.1 := by
  have hlabelled := ascending_labelled h hs
  rw [labelled, Ascending, List.pairwise_map] at hlabelled
  refine hlabelled.imp fun {p q} hpq => ?_
  cases Label.lt_iff.mp hpq with
  | inl hlt => exact absurd hlt (ThreadCount.not_lt_self _)
  | inr hbatch => exact hbatch.2

theorem sorted_eq_self {values : List (Label × α)} (h : Ascending values) {s : Sweep α}
    (hs : s ∈ ofValues values) : s.sorted = s := by
  have hle : s.points.Pairwise fun p q => (compare p.1 q.1).isLE = true := by
    refine (ascending_points h hs).imp fun {p q} hlt => ?_
    have hcompare : compare p.1 q.1 = .lt := Std.compare_eq_lt.mpr hlt
    rw [hcompare]
    rfl
  rw [sorted, List.mergeSort_of_pairwise hle]

/-- Groups and cuts are the same, because a table's labels go by thread count first. -/
theorem grouped_eq_ofTable (t : ResultTable α) (metric : Metric) :
    grouped (t.values metric) = ofTable t metric := by
  have hvalues := ascending_values t metric
  rw [grouped, collected_eq_ofValues hvalues, ofTable]
  calc (ofValues (t.values metric)).map sorted
    _ = (ofValues (t.values metric)).map id :=
      List.map_congr_left fun s hs => sorted_eq_self hvalues hs
    _ = ofValues (t.values metric) := List.map_id _

end SweepReport.Sweep
