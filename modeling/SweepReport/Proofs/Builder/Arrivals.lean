import SweepReport.ResultTable

/-! Runs of the table builder. A slot keeps the value that came first, and an arrival is refused
exactly when its slot is taken. -/
namespace SweepReport
variable {α : Type}

namespace Slots

@[simp] theorem get_empty (metric : Metric) : ({} : Slots α).get metric = none := by
  cases metric <;> rfl

@[simp] theorem get_put (s : Slots α) (metric other : Metric) (v : α) :
    (s.put metric v).get other = if other = metric then some v else s.get other := by
  cases metric <;> cases other <;> rfl

end Slots

namespace TableBuilder

def slot (b : TableBuilder α) (l : Label) (metric : Metric) : Option α :=
  ((b.get? l).getD {}).get metric

@[simp] theorem slot_empty (l : Label) (metric : Metric) :
    slot (.empty : TableBuilder α) l metric = none := by
  simp [slot]

/-- An entry without metrics does not show in the slots. -/
theorem slots_withEntry (b : TableBuilder α) (l k : Label) :
    ((b.withEntry l).get? k).getD {} = (b.get? k).getD {} := by
  unfold withEntry
  cases h : b.get? l with
  | some s => rfl
  | none =>
    simp only [LabelMap.get?_insert]
    by_cases hk : k = l
    · simp [hk, h]
    · simp [hk]

/-- A taken slot is in an entry that was there, so the refused call makes none. -/
theorem withEntry_of_taken {b : TableBuilder α} {l : Label} {metric : Metric} {v : α}
    (h : b.slot l metric = some v) : b.withEntry l = b := by
  unfold withEntry
  cases hl : b.get? l with
  | some s => rfl
  | none => simp [slot, hl] at h

theorem record_taken {b : TableBuilder α} {a : Arrival α} {v : α}
    (h : b.slot a.label a.metric = some v) :
    b.record a = (b, .error (.duplicate a.label a.metric a.path)) := by
  have hs : ((b.get? a.label).getD {}).get a.metric = some v := h
  simp only [record, hs, withEntry_of_taken h]

theorem record_free {b : TableBuilder α} {a : Arrival α} (h : b.slot a.label a.metric = none) :
    b.record a = ((b.withEntry a.label).insert a.label
      (((b.get? a.label).getD {}).put a.metric a.value), .ok ()) := by
  have hs : ((b.get? a.label).getD {}).get a.metric = none := h
  simp only [record, slots_withEntry, hs]

/-- After a call that finds its slot free, that slot has the value and the others are as before. -/
theorem slot_record {b : TableBuilder α} {a : Arrival α} (h : b.slot a.label a.metric = none)
    (l : Label) (metric : Metric) :
    (b.record a).1.slot l metric =
      if a.label = l ∧ a.metric = metric then some a.value else b.slot l metric := by
  have hb : b.slot l metric = ((b.get? l).getD {}).get metric := rfl
  rw [record_free h, slot, LabelMap.get?_insert]
  by_cases hl : l = a.label
  · subst hl
    simp [hb, eq_comm]
  · rw [if_neg hl, slots_withEntry, if_neg fun hc => hl hc.1.symm, hb]

/-- One call after the other on a builder, the refused ones included: the builder in the end, and
what each call returned. -/
def recordAll (b : TableBuilder α) :
    List (Arrival α) → TableBuilder α × List (Except Problem Unit)
  | [] => (b, [])
  | a :: as =>
    let rest := recordAll (b.record a).1 as
    (rest.1, (b.record a).2 :: rest.2)

theorem recordAll_append (b : TableBuilder α) (as cs : List (Arrival α)) :
    b.recordAll (as ++ cs) =
      (((b.recordAll as).1.recordAll cs).1,
        (b.recordAll as).2 ++ ((b.recordAll as).1.recordAll cs).2) := by
  induction as generalizing b with
  | nil => rfl
  | cons a as ih => simp [recordAll, ih]

theorem length_answers (b : TableBuilder α) (as : List (Arrival α)) :
    (b.recordAll as).2.length = as.length := by
  induction as generalizing b with
  | nil => rfl
  | cons a as ih => simp [recordAll, ih]

def Reported (as : List (Arrival α)) (l : Label) (metric : Metric) : Prop :=
  ∃ a ∈ as, a.label = l ∧ a.metric = metric

theorem reported_append {as cs : List (Arrival α)} {l : Label} {metric : Metric} :
    Reported (as ++ cs) l metric ↔ Reported as l metric ∨ Reported cs l metric := by
  simp [Reported, or_and_right, exists_or]

theorem reported_singleton {a : Arrival α} {l : Label} {metric : Metric} :
    Reported [a] l metric ↔ a.label = l ∧ a.metric = metric := by
  simp [Reported]

def Separate (as : List (Arrival α)) : Prop :=
  as.Pairwise fun a c => ¬ (a.label = c.label ∧ a.metric = c.metric)

def firstValue (as : List (Arrival α)) (l : Label) (metric : Metric) : Option α :=
  (as.find? fun a => a.label = l ∧ a.metric = metric).map Arrival.value

theorem firstValue_eq_none_iff {as : List (Arrival α)} {l : Label} {metric : Metric} :
    firstValue as l metric = none ↔ ¬ Reported as l metric := by
  simp [firstValue, Reported]

theorem isSome_firstValue_iff {as : List (Arrival α)} {l : Label} {metric : Metric} :
    (firstValue as l metric).isSome ↔ Reported as l metric := by
  rw [← Option.ne_none_iff_isSome, Ne, firstValue_eq_none_iff, Classical.not_not]

theorem exists_of_firstValue {as : List (Arrival α)} {l : Label} {metric : Metric} {v : α}
    (h : firstValue as l metric = some v) :
    ∃ a ∈ as, a.label = l ∧ a.metric = metric ∧ a.value = v := by
  obtain ⟨a, ha, rfl⟩ := Option.map_eq_some_iff.mp h
  have hp := List.find?_some ha
  rw [decide_eq_true_eq] at hp
  exact ⟨a, List.mem_of_find?_eq_some ha, hp.1, hp.2, rfl⟩

/-- A later call has a say only where no earlier one was. -/
theorem firstValue_concat (as : List (Arrival α)) (a : Arrival α) (l : Label) (metric : Metric) :
    firstValue (as ++ [a]) l metric =
      (firstValue as l metric).or
        (if a.label = l ∧ a.metric = metric then some a.value else none) := by
  rw [firstValue, List.find?_append, firstValue]
  cases h : as.find? fun a => a.label = l ∧ a.metric = metric with
  | some e => simp
  | none =>
    by_cases ha : a.label = l ∧ a.metric = metric
    · simp [ha]
    · simp [ha]

/-- The builder is what the calls make of an empty one: each slot has its first value, and there is
no entry without a metric. -/
structure Reflects (b : TableBuilder α) (as : List (Arrival α)) : Prop where
  slot_eq : ∀ l metric, b.slot l metric = firstValue as l metric
  occupied : ∀ l s, b.get? l = some s → ∃ metric, (s.get metric).isSome

theorem reflects_empty : Reflects (.empty : TableBuilder α) [] :=
  ⟨fun l metric => by simp [firstValue], fun l s h => by simp at h⟩

namespace Reflects
variable {b : TableBuilder α} {as : List (Arrival α)}

theorem taken_iff (h : Reflects b as) (l : Label) (metric : Metric) :
    (∃ v, b.slot l metric = some v) ↔ Reported as l metric := by
  rw [h.slot_eq, ← Option.isSome_iff_exists, isSome_firstValue_iff]

theorem free_iff (h : Reflects b as) (l : Label) (metric : Metric) :
    b.slot l metric = none ↔ ¬ Reported as l metric := by
  rw [h.slot_eq, firstValue_eq_none_iff]

theorem step (h : Reflects b as) (a : Arrival α) : Reflects (b.record a).1 (as ++ [a]) := by
  cases hs : b.slot a.label a.metric with
  | some v =>
    rw [record_taken hs]
    refine ⟨fun l metric => ?_, h.occupied⟩
    rw [firstValue_concat, ← h.slot_eq]
    by_cases ha : a.label = l ∧ a.metric = metric
    · obtain ⟨rfl, rfl⟩ := ha
      simp [hs]
    · simp [ha]
  | none =>
    refine ⟨fun l metric => ?_, fun l s hl => ?_⟩
    · rw [slot_record hs, firstValue_concat, ← h.slot_eq]
      by_cases ha : a.label = l ∧ a.metric = metric
      · obtain ⟨rfl, rfl⟩ := ha
        simp [hs]
      · simp [ha]
    · rw [record_free hs, LabelMap.get?_insert] at hl
      by_cases ha : l = a.label
      · rw [if_pos ha, Option.some.injEq] at hl
        exact ⟨a.metric, by simp [← hl]⟩
      · rw [if_neg ha] at hl
        refine h.occupied l s ?_
        unfold withEntry at hl
        cases hb : b.get? a.label with
        | some r => simpa [hb] using hl
        | none => simpa [hb, LabelMap.get?_insert, ha] using hl

theorem run (h : Reflects b as) (cs : List (Arrival α)) :
    Reflects (b.recordAll cs).1 (as ++ cs) := by
  induction cs generalizing b as with
  | nil => simpa [recordAll] using h
  | cons c cs ih => simpa [recordAll] using ih (h.step c)

theorem answer (h : Reflects b as) (a : Arrival α) :
    (Reported as a.label a.metric ∧
      b.record a = (b, .error (.duplicate a.label a.metric a.path))) ∨
    (¬ Reported as a.label a.metric ∧ (b.record a).2 = .ok ()) := by
  by_cases hr : Reported as a.label a.metric
  · obtain ⟨v, hv⟩ := (h.taken_iff _ _).mpr hr
    exact .inl ⟨hr, record_taken hv⟩
  · exact .inr ⟨hr, by rw [record_free ((h.free_iff _ _).mpr hr)]⟩

theorem all_ok_iff (h : Reflects b as) (cs : List (Arrival α)) :
    (b.recordAll cs).2 = cs.map (fun _ => .ok ()) ↔
      (∀ c ∈ cs, ¬ Reported as c.label c.metric) ∧ Separate cs := by
  induction cs generalizing b as with
  | nil => simp [recordAll, Separate]
  | cons c cs ih =>
    simp only [recordAll, List.map_cons, List.cons.injEq, ih (h.step c), Separate,
      List.pairwise_cons]
    simp only [reported_append, reported_singleton, List.forall_mem_cons]
    rcases h.answer c with ⟨hr, he⟩ | ⟨hr, he⟩
    · simp [he, hr]
    · simp only [he, hr]
      grind

end Reflects

def ofArrivals (as : List (Arrival α)) : TableBuilder α := (recordAll .empty as).1

theorem reflects_ofArrivals (as : List (Arrival α)) : Reflects (ofArrivals as) as :=
  reflects_empty.run as

end TableBuilder
end SweepReport
