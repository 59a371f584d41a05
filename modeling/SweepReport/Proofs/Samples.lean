import SweepReport.Sample.File
import SweepReport.Proofs.Samples.Cells
import SweepReport.Proofs.Text.Trim

/-! What holds of every sample that is read from a file: it counts iterations, and its label has no
white space at its ends. -/
namespace SweepReport

theorem result_readSamples (t : FileTree) (path : Path) :
    (readSamples t path).result = samplesIn t path := by
  simp only [readSamples, Noted.result_bind, Noted.result_ofExcept, Noted.result_note,
    Noted.result_pure]
  cases samplesIn t path <;> rfl

theorem samplesIn_eq_ok_iff {t : FileTree} {p : Path} {samples : List (Sample Float)} :
    samplesIn t p = .ok samples ↔
      ∃ content, t.fetch p = .ok (.file content) ∧ samplesOfBytes content = .ok samples := by
  rw [samplesIn]
  cases t.fetch p with
  | error cause => simp
  | ok e =>
    cases e with
    | folder => simp
    | file content => simp [mapError_eq_ok_iff]

theorem sampleOfRow_eq_ok {header : List String} {r : Delimited.Record} {s : Sample Float}
    (h : sampleOfRow header r = .ok s) :
    s.iterations ≠ 0 ∧ ∃ cells, cellsOf header.length r = .ok cells ∧ s.label ∈ cells := by
  obtain ⟨⟨cells, hcells, hread⟩, hne⟩ := sampleOfRow_eq_ok_iff.mp h
  exact ⟨hne, cells, hcells, hread.label_mem⟩

theorem trimmed_of_cellsOf {width : Nat} {r : Delimited.Record} {cells : List String}
    (h : cellsOf width r = .ok cells) : ∀ cell ∈ cells, Text.Trimmed cell.toList := by
  unfold cellsOf at h
  split at h
  · contradiction
  · split at h
    · contradiction
    · cases h
      intro cell hcell
      obtain ⟨text, -, rfl⟩ := List.mem_map.mp hcell
      rw [trimText, String.toList_ofList]
      exact Text.trimmed_trim text.toList

theorem samplesOfRows_cons_eq_ok_iff {header : List String} {number : Nat}
    {r : Delimited.Record} {rs : List Delimited.Record} {samples : List (Sample Float)} :
    samplesOfRows header number (r :: rs) = .ok samples ↔
      ∃ s rest, sampleOfRow header r = .ok s ∧
        samplesOfRows header (number + 1) rs = .ok rest ∧ s :: rest = samples := by
  rw [samplesOfRows]
  cases sampleOfRow header r with
  | error fault => simp
  | ok s => simp [map_eq_ok_iff]

theorem exists_row_of_rows {header : List String} {number : Nat} {rows : List Delimited.Record}
    {samples : List (Sample Float)} (h : samplesOfRows header number rows = .ok samples) :
    ∀ s ∈ samples, ∃ r ∈ rows, sampleOfRow header r = .ok s := by
  induction rows generalizing number samples with
  | nil =>
    cases h
    simp
  | cons r rs ih =>
    obtain ⟨s, rest, hs, hrest, rfl⟩ := samplesOfRows_cons_eq_ok_iff.mp h
    refine List.forall_mem_cons.mpr ⟨⟨r, List.mem_cons_self, hs⟩, fun x hx => ?_⟩
    obtain ⟨q, hq, hqx⟩ := ih hrest x hx
    exact ⟨q, List.mem_cons_of_mem r hq, hqx⟩

theorem exists_row {t : FileTree} {path : Path} {samples : List (Sample Float)}
    (h : samplesIn t path = .ok samples) :
    ∀ s ∈ samples, ∃ header r, sampleOfRow header r = .ok s := by
  obtain ⟨content, -, hsamples⟩ := samplesIn_eq_ok_iff.mp h
  unfold samplesOfBytes samplesOfTable at hsamples
  intro s hs
  split at hsamples
  · contradiction
  · split at hsamples
    · obtain ⟨r, -, hr⟩ := exists_row_of_rows hsamples s hs
      exact ⟨_, r, hr⟩
    · contradiction

/-- No file gives a sample without iterations. -/
theorem iterations_ne_zero {t : FileTree} {path : Path} {samples : List (Sample Float)}
    (h : samplesIn t path = .ok samples) : ∀ s ∈ samples, s.iterations ≠ 0 := by
  intro s hs
  obtain ⟨header, r, hr⟩ := exists_row h s hs
  exact (sampleOfRow_eq_ok hr).1

/-- The label of a sample has no white space at its ends. -/
theorem trimmed_label {t : FileTree} {path : Path} {samples : List (Sample Float)}
    (h : samplesIn t path = .ok samples) : ∀ s ∈ samples, Text.Trimmed s.label.toList := by
  intro s hs
  obtain ⟨header, r, hr⟩ := exists_row h s hs
  obtain ⟨-, cells, hcells, hmem⟩ := sampleOfRow_eq_ok hr
  exact trimmed_of_cellsOf hcells s.label hmem

end SweepReport
