import Mathlib.Data.List.Forall2
import SweepReport.Proofs.Samples

/-! A file of samples is read whole or not at all. The samples are those of its rows, one each and in
their order; and if there is none of some row, the first such row is what is reported. A header that
lacks a column is reported before any row is looked at. -/
namespace SweepReport

section
variable {header : List String} {number : Nat} {rows : List Delimited.Record}

/-- The samples read so far are those of the rows so far. -/
theorem samplesOfRows_eq_ok_iff {samples : List (Sample Float)} :
    samplesOfRows header number rows = .ok samples ↔
      List.Forall₂ (fun r s => RowReads header r s ∧ s.iterations ≠ 0) rows samples := by
  simp only [← sampleOfRow_eq_ok_iff]
  induction rows generalizing number samples with
  | nil => simp [samplesOfRows, eq_comm]
  | cons r rs ih =>
    rw [samplesOfRows_cons_eq_ok_iff, List.forall₂_cons_left_iff]
    simp only [ih, eq_comm (a := samples)]

/-- A row is reported if it gives no sample and those before it do. -/
theorem samplesOfRows_eq_error_iff {cause : Malformed} :
    samplesOfRows header number rows = .error cause ↔
      ∃ i r fault, rows[i]? = some r ∧ sampleOfRow header r = .error fault ∧
        (∀ j < i, ∀ q ∈ rows[j]?, ∃ s, sampleOfRow header q = .ok s) ∧
        cause = .row (number + i) fault := by
  induction rows generalizing number with
  | nil => simp [samplesOfRows]
  | cons r rs ih =>
    rw [samplesOfRows]
    constructor
    · intro h
      cases hr : sampleOfRow header r with
      | error fault =>
        simp only [hr, Except.error.injEq] at h
        exact ⟨0, r, fault, rfl, hr, by simp, h.symm⟩
      | ok s =>
        simp only [hr, map_eq_error_iff, ih] at h
        obtain ⟨i, q, fault, hq, hfault, hbefore, rfl⟩ := h
        refine ⟨i + 1, q, fault, by simpa using hq, hfault, fun j hj x hx => ?_, ?_⟩
        · cases j with
          | zero => exact ⟨s, by simp_all⟩
          | succ j => exact hbefore j (by omega) x (by simpa using hx)
        · rw [Nat.add_right_comm, Nat.add_assoc]
    · rintro ⟨i, q, fault, hq, hfault, hbefore, rfl⟩
      cases i with
      | zero =>
        obtain rfl : r = q := by simpa using hq
        rw [hfault]
        rfl
      | succ i =>
        obtain ⟨s, hs⟩ := hbefore 0 (Nat.succ_pos i) r (by simp)
        rw [hs]
        refine map_eq_error_iff.mpr (ih.mpr ⟨i, q, fault, by simpa using hq, hfault,
          fun j hj x hx => hbefore (j + 1) (by omega) x (by simpa using hx), ?_⟩)
        rw [Nat.add_right_comm, Nat.add_assoc]

end

/-- At the path there is a file with this header and these rows under it. -/
def HasTable (t : FileTree) (path : Path) (header : List String) (rows : List Delimited.Record) :
    Prop :=
  ∃ content, t.fetch path = .ok (.file content) ∧
    headerOf ((Delimited.records content.toList).headD []) = .ok header ∧
    (Delimited.records content.toList).tail = rows

section
variable {t : FileTree} {path : Path} {header : List String} {rows : List Delimited.Record}
  (h : HasTable t path header rows)
include h

/-- The header is looked at before the rows. -/
theorem HasTable.missing {names : List String} (hnames : Column.missing header = names)
    (hne : names ≠ []) :
    (readSamples t path).result = .error (.malformed path (.missingColumns names)) := by
  obtain ⟨content, hfile, hheader, -⟩ := h
  rw [result_readSamples, samplesIn, hfile]
  simp only [samplesOfBytes, samplesOfTable, hheader, hnames]
  cases names with
  | nil => contradiction
  | cons name names => rfl

theorem HasTable.complete (hnames : Column.missing header = []) :
    (readSamples t path).result = (samplesOfRows header 1 rows).mapError (.malformed path) := by
  obtain ⟨content, hfile, hheader, hrows⟩ := h
  rw [result_readSamples, samplesIn, hfile]
  simp only [samplesOfBytes, samplesOfTable, hheader, hnames, hrows]

end

theorem exists_forall₂_iff {α β : Type} {R : α → β → Prop} {xs : List α} :
    (∃ ys, List.Forall₂ R xs ys) ↔ ∀ x ∈ xs, ∃ y, R x y := by
  induction xs with
  | nil => simp
  | cons x xs ih =>
    rw [List.forall_mem_cons, ← ih]
    constructor
    · rintro ⟨ys, hys⟩
      cases hys with
      | cons hx hrest => exact ⟨⟨_, hx⟩, _, hrest⟩
    · rintro ⟨⟨y, hx⟩, ys, hrest⟩
      exact ⟨y :: ys, .cons hx hrest⟩

theorem missing_eq (header : List String) :
    Column.missing header = Column.required.filter (· ∉ header) := by
  simp [Column.missing]

theorem missing_eq_nil_iff {header : List String} :
    Column.missing header = [] ↔ ∀ name ∈ Column.required, name ∈ header := by
  simp [missing_eq, List.filter_eq_nil_iff]

/-- A file of samples is read whole and in order, or the first thing wrong with it is reported. Columns
that are missing are reported together, whatever the rows are. If there are none, there is one sample
for each row, of the row's own values; and where a row cannot be read or counts no iterations, the
first such row is reported by its number. -/
theorem samples_are_rows_in_order {t : FileTree} {path : Path} {header : List String}
    {rows : List Delimited.Record} (h : HasTable t path header rows) :
    ((∃ name ∈ Column.required, name ∉ header) → (readSamples t path).result =
      .error (.malformed path (.missingColumns (Column.required.filter (· ∉ header))))) ∧
    ((∀ name ∈ Column.required, name ∈ header) →
      (∀ samples, (readSamples t path).result = .ok samples ↔
        List.Forall₂ (fun r s => RowReads header r s ∧ s.iterations ≠ 0) rows samples) ∧
      ((∃ samples, (readSamples t path).result = .ok samples) ↔
        ∀ r ∈ rows, ∃ s, RowReads header r s ∧ s.iterations ≠ 0) ∧
      ∀ problem, (readSamples t path).result = .error problem ↔ ∃ i r fault,
        rows[i]? = some r ∧ (¬ ∃ s, RowReads header r s ∧ s.iterations ≠ 0) ∧
        (∀ j < i, ∀ q ∈ rows[j]?, ∃ s, RowReads header q s ∧ s.iterations ≠ 0) ∧
        sampleOfRow header r = .error fault ∧
        (fault = .noIterations ↔ ∃ s, RowReads header r s ∧ s.iterations = 0) ∧
        problem = .malformed path (.row (i + 1) fault)) := by
  refine ⟨fun hlacks => ?_, fun hnone => ?_⟩
  · refine h.missing (missing_eq header) fun hnil => ?_
    obtain ⟨name, hname, hlack⟩ := hlacks
    exact hlack (missing_eq_nil_iff.mp ((missing_eq header).trans hnil) name hname)
  · rw [h.complete (missing_eq_nil_iff.mpr hnone)]
    refine ⟨fun samples => ?_, ?_, fun problem => ?_⟩
    · rw [mapError_eq_ok_iff, samplesOfRows_eq_ok_iff]
    · simp only [mapError_eq_ok_iff, samplesOfRows_eq_ok_iff, exists_forall₂_iff]
    · simp only [mapError_eq_error_iff, samplesOfRows_eq_error_iff, exists_sampleOfRow_iff]
      constructor
      · rintro ⟨cause, ⟨i, r, fault, hr, hfault, hbefore, rfl⟩, rfl⟩
        refine ⟨i, r, fault, hr, ?_, hbefore, hfault, ?_, ?_⟩
        · rw [← exists_sampleOfRow_iff, hfault]
          simp
        · rw [← sampleOfRow_eq_noIterations_iff, hfault, Except.error.injEq]
        · rw [Nat.add_comm]
      · rintro ⟨i, r, fault, hr, -, hbefore, hfault, -, rfl⟩
        exact ⟨_, ⟨i, r, fault, hr, hfault, hbefore, rfl⟩, by rw [Nat.add_comm]⟩

/-- The second of these rows counts no iterations, and the third is empty. -/
def threeRows : ByteArray :=
  ("value,unit,sample_measured_value,iteration_count\n" ++
    "\"1, 2 files\",ns,10,5\n\"1, 2 files\",ns,10,0\n,,,\n").toUTF8

def oneColumn : ByteArray := "unit,iteration_count\nns,many,more\n".toUTF8

def sampleFiles : FileTree :=
  ⟨[(.ofNames ["rows"], .file threeRows), (.ofNames ["column"], .file oneColumn)], by decide, .top⟩

theorem first_fault_reported :
    (readSamples sampleFiles ⟨"rows"⟩).result = .error (.malformed ⟨"rows"⟩ (.row 2 .noIterations)) ∧
    (readSamples sampleFiles ⟨"column"⟩).result = .error (.malformed ⟨"column"⟩
      (.missingColumns ["value", "sample_measured_value"])) := by
  have hrows : HasTable sampleFiles ⟨"rows"⟩
      ["value", "unit", "sample_measured_value", "iteration_count"]
      (Delimited.records threeRows.toList).tail := ⟨threeRows, rfl, by decide +kernel, rfl⟩
  have hcolumn : HasTable sampleFiles ⟨"column"⟩ ["unit", "iteration_count"]
      (Delimited.records oneColumn.toList).tail := ⟨oneColumn, rfl, by decide +kernel, rfl⟩
  constructor
  · obtain ⟨-, -, hreported⟩ := (samples_are_rows_in_order hrows).2 (by decide)
    have hread : RowReads ["value", "unit", "sample_measured_value", "iteration_count"]
        (["1, 2 files", "ns", "10", "0"].map (·.toUTF8.toList)) ⟨"1, 2 files", 10, 0, none⟩ :=
      ⟨["1, 2 files", "ns", "10", "0"], by decide +kernel, rfl, ⟨"10", rfl, by decide +kernel⟩,
        ⟨"0", rfl, by decide +kernel⟩, .absent⟩
    have hfault := sampleOfRow_eq_noIterations_iff.mpr ⟨_, hread, rfl⟩
    refine (hreported _).mpr ⟨1, _, .noIterations, ?_, ?_, ?_, hfault, ?_, rfl⟩
    · decide +kernel
    · rw [← exists_sampleOfRow_iff, hfault]
      simp
    · intro j hj q hq
      obtain rfl : j = 0 := by omega
      obtain rfl : ["1, 2 files", "ns", "10", "5"].map (·.toUTF8.toList) = q := by
        refine Option.some.inj (Eq.trans ?_ hq)
        decide +kernel
      exact exists_sampleOfRow_iff.mp (exists_eq_ok_iff.mpr (by decide +kernel))
    · exact iff_of_true rfl ⟨_, hread, rfl⟩
  · exact (samples_are_rows_in_order hcolumn).1 (by decide)

end SweepReport
