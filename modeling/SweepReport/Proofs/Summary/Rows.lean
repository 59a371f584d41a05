import SweepReport.Fallible
import SweepReport.Summary

/-! When a metric can be summarized. -/
namespace SweepReport
variable {α : Type} [Scalar α]

theorem mean?_eq_none_iff {xs : List α} : mean? xs = none ↔ xs = [] := by
  unfold mean?
  split <;> simp_all

theorem rates_cons_eq_ok_iff {row : Nat} {x : Sample α} {xs : List (Sample α)} {values : List α} :
    rates row (x :: xs) = .ok values ↔
      ∃ n rest, x.records = some n ∧ rates (row + 1) xs = .ok rest ∧
        n / x.milliseconds :: rest = values := by
  rw [rates]
  cases x.records with
  | none => simp
  | some n => simp [map_eq_ok_iff]

theorem exists_rates_iff {row : Nat} {samples : List (Sample α)} :
    (∃ values, rates row samples = .ok values) ↔ ∀ x ∈ samples, x.records.isSome := by
  induction samples generalizing row with
  | nil => simp [rates]
  | cons x xs ih =>
    simp only [rates_cons_eq_ok_iff]
    rw [List.forall_mem_cons, ← @ih (row + 1), Option.isSome_iff_exists]
    constructor
    · rintro ⟨_, n, rest, hn, hrest, -⟩
      exact ⟨⟨n, hn⟩, rest, hrest⟩
    · rintro ⟨⟨n, hn⟩, rest, hrest⟩
      exact ⟨_, n, rest, hn, hrest, rfl⟩

theorem rates_eq_error_iff {row number : Nat} {samples : List (Sample α)} :
    rates row samples = .error number ↔ ∃ before x after, samples = before ++ x :: after ∧
      (∀ y ∈ before, y.records.isSome) ∧ x.records = none ∧ number = row + before.length := by
  induction samples generalizing row with
  | nil => simp [rates]
  | cons y ys ih =>
    cases hy : y.records with
    | none =>
      simp only [rates, hy, Except.error.injEq]
      constructor
      · intro hnumber
        exact ⟨[], y, ys, rfl, by simp, hy, by simp [hnumber]⟩
      · intro h
        obtain ⟨before, x, after, hsplit, hbefore, hx, hnumber⟩ := h
        cases before with
        | nil => simp [hnumber]
        | cons z zs =>
          obtain ⟨hz, -⟩ := List.cons.inj hsplit
          have hcounted := hbefore z List.mem_cons_self
          simp [← hz, hy] at hcounted
    | some n =>
      simp only [rates, hy, map_eq_error_iff, ih]
      constructor
      · intro h
        obtain ⟨before, x, after, hsplit, hbefore, hx, hnumber⟩ := h
        refine ⟨y :: before, x, after, by rw [hsplit]; rfl, ?_, hx, ?_⟩
        · exact List.forall_mem_cons.mpr ⟨by simp [hy], hbefore⟩
        · rw [hnumber, List.length_cons, Nat.add_assoc, Nat.add_comm 1]
      · intro h
        obtain ⟨before, x, after, hsplit, hbefore, hx, hnumber⟩ := h
        cases before with
        | nil =>
          obtain ⟨hyx, -⟩ := List.cons.inj hsplit
          simp [← hyx, hy] at hx
        | cons z zs =>
          obtain ⟨-, hys⟩ := List.cons.inj hsplit
          refine ⟨zs, x, after, hys, (List.forall_mem_cons.mp hbefore).2, hx, ?_⟩
          rw [hnumber, List.length_cons, Nat.add_assoc, Nat.add_comm 1]

theorem length_rates {row : Nat} {samples : List (Sample α)} {values : List α}
    (h : rates row samples = .ok values) : values.length = samples.length := by
  induction samples generalizing row values with
  | nil => cases h; rfl
  | cons x xs ih =>
    obtain ⟨n, rest, -, hrest, rfl⟩ := rates_cons_eq_ok_iff.mp h
    simp [ih hrest]

theorem length_measures {metric : Metric} {samples : List (Sample α)} {values : List α}
    (h : measures metric samples = .ok values) : values.length = samples.length := by
  cases metric with
  | runtime =>
    cases h
    simp
  | throughput => exact length_rates h

/-- The mean is the fold of what the samples are measured at. -/
theorem summarize_eq_ok_iff {samples : List (Sample α)} {metric : Metric} {path : Path} {v : α} :
    summarize samples metric path = .ok v ↔
      ∃ values, measures metric samples = .ok values ∧ mean? values = some v := by
  unfold summarize
  cases measures metric samples with
  | error row => simp
  | ok values => cases h : mean? values <;> simp [h]

theorem measures_eq_error_iff {metric : Metric} {samples : List (Sample α)} {number : Nat} :
    measures metric samples = .error number ↔
      metric = .throughput ∧ rates 1 samples = .error number := by
  cases metric <;> simp [measures]

theorem mean?_measures {metric : Metric} {samples : List (Sample α)} {values : List α}
    (hne : samples ≠ []) (h : measures metric samples = .ok values) :
    ∃ v, mean? values = some v := by
  cases hmean : mean? values with
  | some v => exact ⟨v, rfl⟩
  | none =>
    have hlength := length_measures h
    rw [mean?_eq_none_iff.mp hmean] at hlength
    exact absurd (List.length_eq_zero_iff.mp hlength.symm) hne

/-- Where there are samples, only a row that counts no records keeps them from having a mean. -/
theorem summarize_eq_error_iff {samples : List (Sample α)} {metric : Metric} {path : Path}
    {p : Problem} (hne : samples ≠ []) :
    summarize samples metric path = .error p ↔ metric = .throughput ∧ ∃ before x after,
      samples = before ++ x :: after ∧ (∀ y ∈ before, y.records.isSome) ∧ x.records = none ∧
        p = .malformed path (.noRecords (before.length + 1)) := by
  have hmeasures : summarize samples metric path = .error p ↔
      ∃ number, measures metric samples = .error number ∧
        p = .malformed path (.noRecords number) := by
    unfold summarize
    cases hm : measures metric samples with
    | error number => simp [eq_comm]
    | ok values =>
      obtain ⟨v, hv⟩ := mean?_measures hne hm
      simp [hv]
  simp only [hmeasures, measures_eq_error_iff, rates_eq_error_iff]
  constructor
  · intro h
    obtain ⟨number, ⟨hmetric, before, x, after, hsplit, hbefore, hx, hnumber⟩, hp⟩ := h
    exact ⟨hmetric, before, x, after, hsplit, hbefore, hx, by rw [hp, hnumber, Nat.add_comm]⟩
  · intro h
    obtain ⟨hmetric, before, x, after, hsplit, hbefore, hx, hp⟩ := h
    exact ⟨_, ⟨hmetric, before, x, after, hsplit, hbefore, hx, rfl⟩, by rw [hp, Nat.add_comm]⟩

theorem exists_summarize_iff {samples : List (Sample α)} {metric : Metric} {path : Path} :
    (∃ v, summarize samples metric path = .ok v) ↔
      samples ≠ [] ∧ (metric = .throughput → ∀ x ∈ samples, x.records.isSome) := by
  have hmeasured : (∃ values, measures metric samples = .ok values) ↔
      (metric = .throughput → ∀ x ∈ samples, x.records.isSome) := by
    cases metric with
    | runtime => simp [measures]
    | throughput => simpa [measures] using exists_rates_iff
  simp only [summarize_eq_ok_iff, ← hmeasured]
  constructor
  · rintro ⟨v, values, hm, hv⟩
    refine ⟨?_, values, hm⟩
    rintro rfl
    have hlength := length_measures hm
    rw [List.length_nil, List.length_eq_zero_iff] at hlength
    simp [mean?_eq_none_iff.mpr hlength] at hv
  · rintro ⟨hne, values, hm⟩
    obtain ⟨v, hv⟩ := mean?_measures hne hm
    exact ⟨v, values, hm, hv⟩

end SweepReport
