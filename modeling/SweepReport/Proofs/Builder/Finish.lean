import SweepReport.Proofs.Builder.Arrivals

/-! The table a builder finishes with. It has the first values of every label that arrived, or there
is a least label with a gap, which the problem names together with the one metric it lacks. -/
namespace SweepReport
variable {α : Type}

namespace Slots
variable {s : Slots α}

theorem full_eq_ok_iff {m : Metrics α} :
    s.full = .ok m ↔ ∀ metric, s.get metric = some (m.get metric) := by
  obtain ⟨r, t⟩ := s
  obtain ⟨x, y⟩ := m
  constructor
  · intro h metric
    cases r <;> cases t <;> cases metric <;> simp_all [full, get, Metrics.get]
  · intro h
    have hr : r = some x := h .runtime
    have ht : t = some y := h .throughput
    simp [full, hr, ht]

/-- An entry that has some metric lacks the one that is named and no other. -/
theorem gap_of_full_eq_error {missing : Metric} (h : s.full = .error missing) :
    s.get missing = none ∧
      ((∃ metric, (s.get metric).isSome) →
        ∀ metric, metric ≠ missing → (s.get metric).isSome) := by
  obtain ⟨r, t⟩ := s
  cases r <;> cases t <;> simp only [full, Except.error.injEq, reduceCtorEq] at h <;> subst h
  · refine ⟨rfl, fun ⟨metric, hm⟩ => ?_⟩
    cases metric <;> simp [get] at hm
  · refine ⟨rfl, fun _ metric hne => ?_⟩
    cases metric
    · exact absurd rfl hne
    · rfl
  · refine ⟨rfl, fun _ metric hne => ?_⟩
    cases metric
    · rfl
    · exact absurd rfl hne

end Slots

namespace TableBuilder
open LabelMap (lookup)

theorem lookup_fullEntries {es : List (Label × Slots α)} {fs : List (Label × Metrics α)}
    (h : fullEntries es = .ok fs) (l : Label) :
    (lookup l es).map Slots.full = (lookup l fs).map .ok := by
  induction es generalizing fs with
  | nil => cases h; rfl
  | cons e es ih =>
    obtain ⟨k, s⟩ := e
    obtain ⟨m, rest, hm, hrest, rfl⟩ := fullEntries_cons_eq_ok_iff.mp h
    by_cases hl : l = k
    · simp [lookup, hl, hm]
    · simpa [lookup, hl] using ih hrest

theorem fullEntries_cons_eq_error_iff {l : Label} {s : Slots α} {es : List (Label × Slots α)}
    {p : Problem} :
    fullEntries ((l, s) :: es) = .error p ↔
      (∃ missing, s.full = .error missing ∧ p = .incomplete l missing) ∨
        (∃ m, s.full = .ok m) ∧ fullEntries es = .error p := by
  rw [fullEntries]
  cases s.full with
  | error missing => simp [eq_comm]
  | ok m => simp [map_eq_error_iff]

/-- The entries before the one that is complained about are full. -/
theorem fullEntries_eq_error {es : List (Label × Slots α)} {p : Problem}
    (h : fullEntries es = .error p) :
    ∃ before l s after missing, es = before ++ (l, s) :: after ∧ s.full = .error missing ∧
      p = .incomplete l missing ∧ ∀ e ∈ before, ∃ m, e.2.full = .ok m := by
  induction es with
  | nil => simp [fullEntries] at h
  | cons e es ih =>
    obtain ⟨k, s⟩ := e
    rcases fullEntries_cons_eq_error_iff.mp h with ⟨missing, hm, hp⟩ | ⟨hs, hrest⟩
    · exact ⟨[], k, s, es, missing, rfl, hm, hp, by simp⟩
    · obtain ⟨before, l, r, after, missing, rfl, hf, hp, hb⟩ := ih hrest
      exact ⟨(k, s) :: before, l, r, after, missing, rfl, hf, hp,
        List.forall_mem_cons.mpr ⟨hs, hb⟩⟩

theorem toTable_eq_ok_iff {b : TableBuilder α} {table : ResultTable α} :
    toTable b = .ok table ↔ fullEntries b.entries = .ok table.entries := by
  unfold toTable
  split <;> rename_i h
  · simp [h]
  · obtain ⟨es, he⟩ := table
    simp [h]

theorem toTable_eq_error_iff {b : TableBuilder α} {p : Problem} :
    toTable b = .error p ↔ fullEntries b.entries = .error p := by
  unfold toTable
  split <;> rename_i h <;> simp [h]

/-- A table that is finished reads the full entries of its builder. -/
theorem get?_toTable {b : TableBuilder α} {table : ResultTable α} (h : toTable b = .ok table)
    (l : Label) : (b.get? l).map Slots.full = (table.get? l).map .ok :=
  lookup_fullEntries (toTable_eq_ok_iff.mp h) l

/-- The first entry that is not full stands below all others that are not. -/
theorem toTable_eq_error {b : TableBuilder α} {p : Problem} (h : toTable b = .error p) :
    ∃ l s missing, p = .incomplete l missing ∧ b.get? l = some s ∧ s.full = .error missing ∧
      ∀ k r, k < l → b.get? k = some r → ∃ m, r.full = .ok m := by
  obtain ⟨before, l, s, after, missing, he, hf, hp, hb⟩ :=
    fullEntries_eq_error (toTable_eq_error_iff.mp h)
  have hasc := b.ascending
  rw [he, Ascending, List.pairwise_append, List.pairwise_cons] at hasc
  refine ⟨l, s, missing, hp, LabelMap.mem_entries_iff.mp (by simp [he]), hf, fun k r hk hr => ?_⟩
  have hmem := LabelMap.mem_entries_iff.mpr hr
  rw [he, List.mem_append, List.mem_cons] at hmem
  rcases hmem with hm | heq | hm
  · exact hb _ hm
  · cases heq
    exact absurd hk (LabelMap.not_lt_self _)
  · exact absurd (Std.TransCmp.lt_trans hk (hasc.2.1.1 _ hm)) (LabelMap.not_lt_self k)

def Occurs (as : List (Arrival α)) (l : Label) : Prop := ∃ a ∈ as, a.label = l

def Complete (as : List (Arrival α)) : Prop :=
  ∀ l, Occurs as l → ∀ metric, Reported as l metric

/-- The least label that lacks a metric, and the only one it lacks. -/
structure FirstGap (as : List (Arrival α)) (l : Label) (missing : Metric) : Prop where
  occurs : Occurs as l
  lacks : ¬ Reported as l missing
  only : ∀ metric, metric ≠ missing → Reported as l metric
  least : ∀ k, k < l → Occurs as k → ∀ metric, Reported as k metric

theorem occurs_iff {as : List (Arrival α)} {l : Label} :
    Occurs as l ↔ ∃ metric, Reported as l metric := by
  simp only [Occurs, Reported]
  grind

theorem FirstGap.unique {as : List (Arrival α)} {l k : Label} {missing other : Metric}
    (h : FirstGap as l missing) (h' : FirstGap as k other) : l = k ∧ missing = other := by
  have hl : l = k := by
    rcases LabelMap.lt_or_eq_or_gt l k with hlt | heq | hgt
    · exact absurd (h'.least l hlt h.occurs missing) h.lacks
    · exact heq
    · exact absurd (h.least k hgt h'.occurs other) h'.lacks
  subst hl
  refine ⟨rfl, Decidable.byContradiction fun hne => ?_⟩
  exact h.lacks (h'.only missing hne)

namespace Reflects
variable {b : TableBuilder α} {as : List (Arrival α)}

theorem entry_iff (h : Reflects b as) (l : Label) : (∃ s, b.get? l = some s) ↔ Occurs as l := by
  rw [occurs_iff]
  constructor
  · rintro ⟨s, hs⟩
    obtain ⟨metric, hm⟩ := h.occupied l s hs
    exact ⟨metric, (h.taken_iff l metric).mp
      (Option.isSome_iff_exists.mp (by simpa [slot, hs] using hm))⟩
  · rintro ⟨metric, hm⟩
    obtain ⟨v, hv⟩ := (h.taken_iff l metric).mpr hm
    cases hb : b.get? l with
    | some s => exact ⟨s, rfl⟩
    | none => simp [slot, hb] at hv

theorem get_eq (h : Reflects b as) {l : Label} {s : Slots α} (hs : b.get? l = some s)
    (metric : Metric) : s.get metric = firstValue as l metric := by
  rw [← h.slot_eq]
  simp [slot, hs]

theorem get?_eq_some_iff (h : Reflects b as) {table : ResultTable α} (ht : toTable b = .ok table)
    (l : Label) (m : Metrics α) :
    table.get? l = some m ↔ ∀ metric, firstValue as l metric = some (m.get metric) := by
  have hl := get?_toTable ht l
  cases hb : b.get? l with
  | none =>
    rw [hb] at hl
    have hn : table.get? l = none := by simpa using hl.symm
    have hf : firstValue as l .runtime = none := by
      rw [← h.slot_eq]
      simp [slot, hb]
    rw [hn]
    refine ⟨fun hm => (by simp at hm), fun hm => ?_⟩
    simpa [hf] using hm .runtime
  | some s =>
    simp only [← h.get_eq hb, ← Slots.full_eq_ok_iff]
    rw [hb] at hl
    cases ht : table.get? l with
    | none => simp [ht] at hl
    | some n =>
      rw [ht] at hl
      simp only [Option.map_some, Option.some.injEq] at hl
      simp [hl]

theorem mem_labels_iff (h : Reflects b as) {table : ResultTable α} (ht : toTable b = .ok table)
    (l : Label) : l ∈ table.labels ↔ Occurs as l := by
  rw [LabelMap.mem_labels_iff]
  constructor
  · rintro ⟨m, hm⟩
    have hv := (h.get?_eq_some_iff ht l m).mp hm .runtime
    exact occurs_iff.mpr ⟨.runtime, isSome_firstValue_iff.mp (by simp [hv])⟩
  · intro hl
    obtain ⟨s, hs⟩ := (h.entry_iff l).mpr hl
    have hm := get?_toTable ht l
    cases hg : table.get? l with
    | none => simp [hs, hg] at hm
    | some m => exact ⟨m, rfl⟩

theorem complete (h : Reflects b as) {table : ResultTable α} (ht : toTable b = .ok table) :
    Complete as := by
  intro l hl metric
  obtain ⟨m, hm⟩ := LabelMap.mem_labels_iff.mp ((h.mem_labels_iff ht l).mpr hl)
  exact isSome_firstValue_iff.mp (by simp [(h.get?_eq_some_iff ht l m).mp hm metric])

theorem firstGap (h : Reflects b as) {p : Problem} (hp : toTable b = .error p) :
    ∃ l missing, p = .incomplete l missing ∧ FirstGap as l missing := by
  obtain ⟨l, s, missing, hp, hs, hf, hleast⟩ := toTable_eq_error hp
  obtain ⟨hnone, hothers⟩ := Slots.gap_of_full_eq_error hf
  refine ⟨l, missing, hp, (h.entry_iff l).mp ⟨s, hs⟩, ?_, fun metric hne => ?_, ?_⟩
  · rwa [← firstValue_eq_none_iff, ← h.get_eq hs]
  · rw [← isSome_firstValue_iff, ← h.get_eq hs]
    exact hothers (h.occupied l s hs) metric hne
  · intro k hk hocc metric
    obtain ⟨r, hr⟩ := (h.entry_iff k).mpr hocc
    obtain ⟨m, hm⟩ := hleast k r hk hr
    rw [← isSome_firstValue_iff, ← h.get_eq hr, Slots.full_eq_ok_iff.mp hm metric]
    rfl

theorem toTable_eq_error_iff (h : Reflects b as) {p : Problem} :
    toTable b = .error p ↔ ∃ l missing, FirstGap as l missing ∧ p = .incomplete l missing := by
  constructor
  · intro hp
    obtain ⟨l, missing, hp, hgap⟩ := h.firstGap hp
    exact ⟨l, missing, hgap, hp⟩
  · intro hfirst
    obtain ⟨l, missing, hgap, hp⟩ := hfirst
    cases ht : toTable b with
    | ok table => exact absurd (h.complete ht l hgap.occurs missing) hgap.lacks
    | error q =>
      obtain ⟨k, other, hq, hother⟩ := h.firstGap ht
      obtain ⟨hl, hm⟩ := hgap.unique hother
      rw [hq, hp, hl, hm]

theorem exists_toTable_iff (h : Reflects b as) :
    (∃ table, toTable b = .ok table) ↔ Complete as := by
  constructor
  · rintro ⟨table, ht⟩
    exact h.complete ht
  · intro hc
    cases ht : toTable b with
    | ok table => exact ⟨table, rfl⟩
    | error p =>
      obtain ⟨l, missing, -, hgap⟩ := h.firstGap ht
      exact absurd (hc l hgap.occurs missing) hgap.lacks

end Reflects

/-- A call is refused exactly when an earlier one had its label and metric, and then it leaves no
trace; the slots have the first values. Finishing gives their table, or names the first gap. -/
theorem ofArrivals_builds_first_values (as : List (Arrival α)) :
    (∀ before a after, as = before ++ a :: after →
      (recordAll .empty as).2[before.length]? = some ((ofArrivals before).record a).2 ∧
      (((ofArrivals before).record a).2 = .error (.duplicate a.label a.metric a.path) ↔
        Reported before a.label a.metric) ∧
      (((ofArrivals before).record a).2 = .ok () ∨
        (ofArrivals before).record a =
          (ofArrivals before, .error (.duplicate a.label a.metric a.path)))) ∧
    (∀ l s, (ofArrivals as).get? l = some s → ∃ metric, (s.get metric).isSome) ∧
    (∀ l metric, (ofArrivals as).slot l metric = firstValue as l metric) ∧
    ((∃ table, toTable (ofArrivals as) = .ok table) ↔ Complete as) ∧
    (∀ table, toTable (ofArrivals as) = .ok table → ∀ l m,
      table.get? l = some m ↔ ∀ metric, firstValue as l metric = some (m.get metric)) ∧
    (∀ p, toTable (ofArrivals as) = .error p →
      ∃ l missing, p = .incomplete l missing ∧ FirstGap as l missing) := by
  have hr := reflects_ofArrivals as
  refine ⟨?_, hr.occupied, hr.slot_eq, hr.exists_toTable_iff,
    fun table ht => hr.get?_eq_some_iff ht, fun p hp => hr.firstGap hp⟩
  · rintro before a after rfl
    refine ⟨?_, ?_⟩
    · have hlength := length_answers (.empty : TableBuilder α) before
      rw [recordAll_append, List.getElem?_append_right (Nat.le_of_eq hlength), hlength]
      simp [recordAll, ofArrivals]
    · rcases (reflects_ofArrivals before).answer a with ⟨h, he⟩ | ⟨h, he⟩
      · exact ⟨by simp [he, h], .inr he⟩
      · exact ⟨by simp [he, h], .inl he⟩

end TableBuilder
end SweepReport
