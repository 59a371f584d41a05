import SweepReport.Proofs.Samples.Rows
import SweepReport.Proofs.Summary.Rows
import SweepReport.Proofs.Trend.Exact

/-! What a summary makes of the samples of a configuration. Without samples there is none, and a
throughput of samples that do not all count records is refused at the first that does not.
Otherwise, in exact arithmetic, it is the mean of what the metric says of each sample. -/
namespace SweepReport

/-- The first element that passes a test parts a list. -/
theorem findIdx?_eq_some_iff {α : Type} {p : α → Bool} {xs : List α} {k : Nat} :
    xs.findIdx? p = some k ↔ ∃ before x after, xs = before ++ x :: after ∧
      (∀ y ∈ before, p y = false) ∧ p x = true ∧ before.length = k := by
  constructor
  · intro h
    obtain ⟨hk, hx, hbefore⟩ := List.findIdx?_eq_some_iff_getElem.mp h
    refine ⟨xs.take k, xs[k], xs.drop (k + 1), ?_, fun y hy => ?_, hx, ?_⟩
    · simp
    · obtain ⟨j, hj, rfl⟩ := List.getElem_of_mem hy
      rw [List.length_take] at hj
      simpa using hbefore j (by omega)
    · exact List.length_take_of_le hk.le
  · rintro ⟨before, x, after, rfl, hbefore, hx, rfl⟩
    rw [List.findIdx?_append, List.findIdx?_eq_none_iff.mpr hbefore, List.findIdx?_cons, if_pos hx]
    simp

section
variable {α : Type} [Scalar α] {samples : List (Sample α)} {path : Path}

theorem summarize_eq_noSamples_iff {metric : Metric} :
    summarize samples metric path = .error (.noSamples path) ↔ samples = [] := by
  constructor
  · intro h
    by_contra hne
    obtain ⟨-, before, x, after, -, -, -, hproblem⟩ := (summarize_eq_error_iff hne).mp h
    contradiction
  · rintro rfl
    cases metric <;> rfl

/-- The row that is named is that of the first sample without a record count. -/
theorem summarize_eq_noRecords_iff {k : Nat} :
    summarize samples .throughput path = .error (.malformed path (.noRecords (k + 1))) ↔
      samples.findIdx? (·.records.isNone) = some k := by
  by_cases hne : samples = []
  · have hnone : summarize samples .throughput path = .error (.noSamples path) :=
      summarize_eq_noSamples_iff.mpr hne
    rw [hnone, hne]
    simp
  · have hcounts (s : Sample α) : s.records.isNone = false ↔ s.records.isSome := by
      cases s.records <;> simp
    rw [summarize_eq_error_iff hne, findIdx?_eq_some_iff]
    simp only [true_and, hcounts, Option.isNone_iff_eq_none, Problem.malformed.injEq,
      Malformed.noRecords.injEq, Nat.add_right_cancel_iff, eq_comm (a := k)]

end

/-- What a metric says of a sample in exact arithmetic, where it divides by nothing that is zero. -/
inductive SampleValue : Metric → Sample ℚ → ℚ → Prop
  | runtime {s : Sample ℚ} (hiterations : s.iterations ≠ 0) :
    SampleValue .runtime s (s.elapsed / s.iterations.toNat / 1000000)
  | throughput {s : Sample ℚ} {n : ℚ} (hiterations : s.iterations ≠ 0) (helapsed : s.elapsed ≠ 0)
    (hrecords : s.records = some n) :
    SampleValue .throughput s (n / (s.elapsed / s.iterations.toNat / 1000000))

theorem SampleValue.rate_eq {s : Sample ℚ} {x n : ℚ} (h : SampleValue .throughput s x)
    (hn : s.records = some n) : x = n / (s.elapsed / s.iterations.toNat / 1000000) := by
  cases h with
  | throughput _ _ hrecords =>
    obtain rfl := Option.some.inj (hn.symm.trans hrecords)
    rfl

section
variable [Precision] {samples : List (Sample ℚ)} {metric : Metric}

theorem milliseconds_exact (s : Sample ℚ) :
    s.milliseconds = s.elapsed / s.iterations.toNat / 1000000 := by
  have hnanos : (Scalar.ofNat nanosPerMilli : ℚ) = 1000000 := Nat.cast_ofNat
  have hword : (Scalar.ofWord s.iterations : ℚ) = s.iterations.toNat := rfl
  rw [Sample.milliseconds, hnanos, hword]

theorem exists_rates_exact (hiterations : ∀ s ∈ samples, s.iterations ≠ 0)
    (hcounted : ∀ s ∈ samples, s.records.isSome ∧ s.elapsed ≠ 0) (row : Nat) :
    ∃ values, rates row samples = .ok values ∧
      List.Forall₂ (SampleValue .throughput) samples values := by
  induction samples generalizing row with
  | nil => exact ⟨[], rfl, .nil⟩
  | cons s samples ih =>
    obtain ⟨hs, hiterations⟩ := List.forall_mem_cons.mp hiterations
    obtain ⟨⟨hrecords, helapsed⟩, hcounted⟩ := List.forall_mem_cons.mp hcounted
    obtain ⟨n, hn⟩ := Option.isSome_iff_exists.mp hrecords
    obtain ⟨values, hvalues, hall⟩ := ih hiterations hcounted (row + 1)
    refine ⟨_, rates_cons_eq_ok_iff.mpr ⟨n, values, hn, hvalues, rfl⟩, .cons ?_ hall⟩
    rw [milliseconds_exact]
    exact .throughput hs helapsed hn

theorem exists_measures_exact (hiterations : ∀ s ∈ samples, s.iterations ≠ 0)
    (hcounted : metric = .throughput → ∀ s ∈ samples, s.records.isSome ∧ s.elapsed ≠ 0) :
    ∃ values, measures metric samples = .ok values ∧
      List.Forall₂ (SampleValue metric) samples values := by
  cases metric with
  | throughput => exact exists_rates_exact hiterations (hcounted rfl) 1
  | runtime =>
    refine ⟨_, rfl, ?_⟩
    rw [List.forall₂_map_right_iff, List.forall₂_same]
    intro s hs
    rw [milliseconds_exact]
    exact .runtime (hiterations s hs)

theorem mean?_exact {xs : List ℚ} (hne : xs ≠ []) : mean? xs = some (xs.sum / xs.length) := by
  rw [mean?, if_neg (by rwa [List.isEmpty_iff]), zero_exact, ← List.sum_eq_foldl]
  rfl

/-- The summary times the number of samples is the sum of what each says. -/
theorem exists_summary_exact (hne : samples ≠ []) (hiterations : ∀ s ∈ samples, s.iterations ≠ 0)
    (hcounted : metric = .throughput → ∀ s ∈ samples, s.records.isSome ∧ s.elapsed ≠ 0)
    (path : Path) :
    ∃ values v, List.Forall₂ (SampleValue metric) samples values ∧
      summarize samples metric path = .ok v ∧ v * samples.length = values.sum := by
  obtain ⟨values, hmeasures, hvalues⟩ := exists_measures_exact hiterations hcounted
  have hlength : (samples.length : ℚ) ≠ 0 := by
    rwa [Nat.cast_ne_zero, Ne, List.length_eq_zero_iff]
  have hvaluesne : values ≠ [] := by
    rintro rfl
    exact hne (List.forall₂_nil_right_iff.mp hvalues)
  refine ⟨values, _, hvalues,
    summarize_eq_ok_iff.mpr ⟨values, hmeasures, mean?_exact hvaluesne⟩, ?_⟩
  rw [← hvalues.length_eq, div_mul_cancel₀ _ hlength]

end

section
variable {header : List String} {rows : List Delimited.Record} {samples : List (Sample Float)}

/-- A row that is refused for its sample has the number it would be refused by as a row. -/
theorem samplesOfRows_set {k : Nat} {bad : Delimited.Record} {fault : RowFault}
    (h : samplesOfRows header 1 rows = .ok samples) (hk : k < rows.length)
    (hbad : sampleOfRow header bad = .error fault) :
    samplesOfRows header 1 (rows.set k bad) = .error (.row (k + 1) fault) := by
  rw [samplesOfRows_eq_error_iff]
  refine ⟨k, bad, fault, by simp [hk], hbad, fun j hj q hq => ?_, by rw [Nat.add_comm]⟩
  rw [List.getElem?_set_ne (by omega)] at hq
  have hall := exists_forall₂_iff.mp ⟨samples, samplesOfRows_eq_ok_iff.mp h⟩
  exact exists_sampleOfRow_iff.mpr (hall q (List.mem_of_getElem? hq))

theorem HasTable.rows_of_ok {t : FileTree} {path : Path} (h : HasTable t path header rows)
    (hread : (readSamples t path).result = .ok samples) :
    Column.missing header = [] ∧ samplesOfRows header 1 rows = .ok samples := by
  have hnone : Column.missing header = [] := by
    by_contra hne
    rw [h.missing rfl hne] at hread
    contradiction
  rw [h.complete hnone, mapError_eq_ok_iff] at hread
  exact ⟨hnone, hread⟩

theorem exists_uncounted_row {k : Nat} (h : samplesOfRows header 1 rows = .ok samples)
    (hk : samples.findIdx? (·.records.isNone) = some k) :
    ∃ r s, rows[k]? = some r ∧ RowReads header r s ∧ s.records = none := by
  obtain ⟨hlt, hnone, -⟩ := List.findIdx?_eq_some_iff_getElem.mp hk
  have hrows := samplesOfRows_eq_ok_iff.mp h
  have hlt' : k < rows.length := hrows.length_eq ▸ hlt
  exact ⟨rows[k], samples[k], List.getElem?_eq_getElem hlt', (hrows.get hlt' hlt).1,
    Option.isNone_iff_eq_none.mp hnone⟩

end

/-- A summary accounts for every sample. In any arithmetic it is refused for want of samples just
where there are none, and a throughput at a row just where that is the row of the first sample
without a record count; a runtime of some samples is not refused. In exact arithmetic it is the mean
of what the metric says of each sample. And where the samples were read from a file, the row it is
refused at has the number by which reading would refuse it. -/
theorem summary_accounts_for_rows :
    (∀ {α : Type} [Scalar α] (samples : List (Sample α)) (path : Path),
      (∀ metric, summarize samples metric path = .error (.noSamples path) ↔ samples = []) ∧
      (∀ k, summarize samples .throughput path = .error (.malformed path (.noRecords (k + 1))) ↔
        samples.findIdx? (·.records.isNone) = some k) ∧
      ((∃ k, summarize samples .throughput path = .error (.malformed path (.noRecords (k + 1)))) ↔
        ∃ s ∈ samples, s.records = none) ∧
      (samples ≠ [] → ∃ v, summarize samples .runtime path = .ok v)) ∧
    (∀ [Precision] (samples : List (Sample ℚ)) (metric : Metric) (path : Path), samples ≠ [] →
      (∀ s ∈ samples, s.iterations ≠ 0) →
      (metric = .throughput → ∀ s ∈ samples, s.records.isSome ∧ s.elapsed ≠ 0) →
      ∃ values v, List.Forall₂ (SampleValue metric) samples values ∧
        summarize samples metric path = .ok v ∧ v * samples.length = values.sum) ∧
    ∀ (t : FileTree) (path : Path) (header : List String) (rows : List Delimited.Record)
      (samples : List (Sample Float)) (k : Nat), HasTable t path header rows →
      (readSamples t path).result = .ok samples →
      summarize samples .throughput path = .error (.malformed path (.noRecords (k + 1))) →
      (∃ r s, rows[k]? = some r ∧ RowReads header r s ∧ s.records = none) ∧
      ∀ bad fault t' path', sampleOfRow header bad = .error fault →
        HasTable t' path' header (rows.set k bad) →
        (readSamples t' path').result = .error (.malformed path' (.row (k + 1) fault)) := by
  refine ⟨fun samples path => ⟨fun _ => summarize_eq_noSamples_iff,
    fun _ => summarize_eq_noRecords_iff, ?_, fun hne => ?_⟩,
    fun _ _ path hne hiterations hcounted => exists_summary_exact hne hiterations hcounted path, ?_⟩
  · simp only [summarize_eq_noRecords_iff, ← Option.isSome_iff_exists, List.findIdx?_isSome,
      List.any_eq_true, Option.isNone_iff_eq_none]
  · exact exists_summarize_iff.mpr ⟨hne, nofun⟩
  · intro t path header rows samples k htable hread hrefused
    obtain ⟨hnone, hrows⟩ := htable.rows_of_ok hread
    have hrow := exists_uncounted_row hrows (summarize_eq_noRecords_iff.mp hrefused)
    refine ⟨hrow, fun bad fault t' path' hbad htable' => ?_⟩
    obtain ⟨r, s, hr, -⟩ := hrow
    obtain ⟨hk, -⟩ := List.getElem?_eq_some_iff.mp hr
    rw [htable'.complete hnone, samplesOfRows_set hrows hk hbad]
    rfl

def countedNames : List String :=
  ["value", "sample_measured_value", "iteration_count", "throughput_num"]

/-- The second of these rows counts no records. -/
def countedOnce : ByteArray :=
  ("value,sample_measured_value,iteration_count,throughput_num\n" ++
    "\"2, 8 files\",10,5,100\n\"2, 8 files\",10,5,\n").toUTF8

def emptyRow : ByteArray :=
  ("value,sample_measured_value,iteration_count,throughput_num\n" ++
    "\"2, 8 files\",10,5,100\n,,,\n").toUTF8

def countedFiles : FileTree :=
  ⟨[(.ofNames ["counted"], .file countedOnce), (.ofNames ["empty"], .file emptyRow)], by decide,
    .top⟩

/-- Two rates, of 100 and of 25 records a millisecond, have a mean. A row that counts no records is
refused by its number, as is one in its place that says nothing. -/
theorem two_rates_averaged :
    (letI : Precision := ⟨1 / 2 ^ 52⟩
    ∃ v, summarize [⟨"2, 8 files", 2000000, 2, some 100⟩, ⟨"2, 8 files", 8000000, 2, some 100⟩]
      .throughput ⟨"raw.csv"⟩ = .ok v ∧ v * 2 = (125 : ℚ)) ∧
    (∃ samples, (readSamples countedFiles ⟨"counted"⟩).result = .ok samples ∧
      summarize samples .throughput ⟨"counted"⟩ =
        .error (.malformed ⟨"counted"⟩ (.noRecords 2))) ∧
    ∃ fault, (readSamples countedFiles ⟨"empty"⟩).result =
      .error (.malformed ⟨"empty"⟩ (.row 2 fault)) := by
  obtain ⟨hrefused, hexact, hread⟩ := summary_accounts_for_rows
  refine ⟨?_, ?_⟩
  · let _ : Precision := ⟨1 / 2 ^ 52⟩
    obtain ⟨values, v, hvalues, hv, hsum⟩ := hexact
      [⟨"2, 8 files", 2000000, 2, some 100⟩, ⟨"2, 8 files", 8000000, 2, some 100⟩] .throughput
      ⟨"raw.csv"⟩ (List.cons_ne_nil _ _) (by simp) (by simp)
    refine ⟨v, hv, ?_⟩
    cases hvalues with
    | cons hfirst hrest =>
      cases hrest with
      | cons hsecond hnil =>
        cases hnil
        have htwo : UInt64.toNat 2 = 2 := rfl
        rw [hfirst.rate_eq rfl, hsecond.rate_eq rfl] at hsum
        norm_num [htwo] at hsum
        exact hsum
  · have hreads : ((readSamples countedFiles ⟨"counted"⟩).result.toOption.bind
        fun samples => samples.findIdx? (·.records.isNone)) = some 1 := by decide +kernel
    obtain ⟨samples, hsamples, hfirst⟩ := Option.bind_eq_some_iff.mp hreads
    have hok := toOption_eq_some_iff.mp hsamples
    have hsummary := ((hrefused samples ⟨"counted"⟩).2.1 1).mpr hfirst
    have hcounted : HasTable countedFiles ⟨"counted"⟩ countedNames
        (Delimited.records countedOnce.toList).tail := ⟨countedOnce, rfl, by decide +kernel, rfl⟩
    have hempty : HasTable countedFiles ⟨"empty"⟩ countedNames
        ((Delimited.records countedOnce.toList).tail.set 1 [[], [], [], []]) :=
      ⟨emptyRow, rfl, by decide +kernel, by decide +kernel⟩
    obtain ⟨-, hnumber⟩ := hread _ _ _ _ _ _ hcounted hok hsummary
    have hnothing : (sampleOfRow countedNames [[], [], [], []]).toOption = none := by
      decide +kernel
    cases hrow : sampleOfRow countedNames [[], [], [], []] with
    | ok s =>
      rw [hrow] at hnothing
      contradiction
    | error fault => exact ⟨⟨samples, hok, hsummary⟩, fault, hnumber _ _ _ _ hrow hempty⟩

end SweepReport
