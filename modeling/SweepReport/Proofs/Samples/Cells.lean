import SweepReport.Fallible
import SweepReport.Sample.Row

/-! What the cells of a row say, whatever the order of their columns. Each field of a sample is read from
the one cell under its name, and both two such cells and none are faults; only the records may have no
column, or an empty cell. -/
namespace SweepReport

def cellsUnder (name : String) (cells : List (String × String)) : List String :=
  (cells.filter (·.1 = name)).map Prod.snd

@[simp] theorem cellsUnder_cons_self (name cell : String) (rest : List (String × String)) :
    cellsUnder name ((name, cell) :: rest) = cell :: cellsUnder name rest := by
  simp [cellsUnder]

theorem cellsUnder_cons_of_ne {name other : String} (h : other ≠ name) (cell : String)
    (rest : List (String × String)) : cellsUnder name ((other, cell) :: rest) = cellsUnder name rest := by
  simp [cellsUnder, h]

/-- What the cells of a column do to a field: none leave it, and one fills it if it was empty. -/
inductive Fills {β : Type} (read : String → Except CellFault β) :
    List String → Option β → Option β → Prop
  | absent (old : Option β) : Fills read [] old old
  | single {cell : String} {v : β} (h : read cell = .ok v) : Fills read [cell] none (some v)

def readRecordsCell (cell : String) : Except CellFault (Option Float) :=
  if cell.isEmpty then .ok none else some <$> readFloatCell cell

namespace Fills
variable {β : Type} {read : String → Except CellFault β} {old new : Option β}

theorem nil_iff : Fills read [] old new ↔ new = old := by
  constructor
  · rintro ⟨⟩
    rfl
  · rintro rfl
    exact absent new

theorem cons_iff {cell : String} {cells : List String} :
    Fills read (cell :: cells) old new ↔
      old = none ∧ ∃ v, read cell = .ok v ∧ Fills read cells (some v) new := by
  constructor
  · rintro ⟨⟩
    rename_i v h
    exact ⟨rfl, v, h, absent _⟩
  · rintro ⟨rfl, v, hread, hrest⟩
    cases hrest
    exact single hread

theorem none_some_iff {cells : List String} {v : β} :
    Fills read cells none (some v) ↔ ∃ cell, cells = [cell] ∧ read cell = .ok v := by
  constructor
  · rintro ⟨⟩
    rename_i cell h
    exact ⟨cell, rfl, h⟩
  · rintro ⟨cell, rfl, h⟩
    exact single h

end Fills

namespace Draft

theorem keep_eq_ok_iff {β : Type} {column : Nat} {name : String} {old : Option β}
    {new : Except CellFault β} {put : β → Draft} {d : Draft} :
    keep column name old new put = .ok d ↔ old = none ∧ ∃ v, new = .ok v ∧ put v = d := by
  unfold keep
  cases old with
  | some v => simp
  | none => cases new <;> simp

/-- The draft that the cells of a row make of one before them. -/
structure Takes (cells : List (String × String)) (d d' : Draft) : Prop where
  label : Fills .ok (cellsUnder Column.label cells) d.label d'.label
  elapsed : Fills readFloatCell (cellsUnder Column.elapsed cells) d.elapsed d'.elapsed
  iterations : Fills readWordCell (cellsUnder Column.iterations cells) d.iterations d'.iterations
  records : Fills readRecordsCell (cellsUnder Column.records cells) d.records d'.records

theorem takes_iff {cells : List (String × String)} {d d' : Draft} : Takes cells d d' ↔
    Fills .ok (cellsUnder Column.label cells) d.label d'.label ∧
      Fills readFloatCell (cellsUnder Column.elapsed cells) d.elapsed d'.elapsed ∧
      Fills readWordCell (cellsUnder Column.iterations cells) d.iterations d'.iterations ∧
      Fills readRecordsCell (cellsUnder Column.records cells) d.records d'.records :=
  ⟨fun ⟨hl, he, hi, hr⟩ => ⟨hl, he, hi, hr⟩, fun ⟨hl, he, hi, hr⟩ => ⟨hl, he, hi, hr⟩⟩

theorem takes_nil_iff {d d' : Draft} : Takes [] d d' ↔ d = d' := by
  obtain ⟨label, elapsed, iterations, records⟩ := d
  obtain ⟨label', elapsed', iterations', records'⟩ := d'
  simp only [takes_iff, cellsUnder, List.filter_nil, List.map_nil, Fills.nil_iff, Draft.mk.injEq]
  grind

/-- What is kept is the value of a cell in a field that was empty. -/
theorem exists_keep_iff {β : Type} {column : Nat} {name : String} {old : Option β}
    {new : Except CellFault β} {put : β → Draft} {P : Draft → Prop} :
    (∃ next, keep column name old new put = .ok next ∧ P next) ↔
      old = none ∧ ∃ v, new = .ok v ∧ P (put v) := by
  simp only [keep_eq_ok_iff]
  grind

theorem takes_cons_iff {d d' : Draft} {name cell : String} {rest : List (String × String)}
    (column : Nat) : Takes ((name, cell) :: rest) d d' ↔
      ∃ next, d.add column name cell = .ok next ∧ Takes rest next d' := by
  unfold add
  have hle : Column.label ≠ Column.elapsed := by decide
  have hli : Column.label ≠ Column.iterations := by decide
  have hlr : Column.label ≠ Column.records := by decide
  have hei : Column.elapsed ≠ Column.iterations := by decide
  have her : Column.elapsed ≠ Column.records := by decide
  have hir : Column.iterations ≠ Column.records := by decide
  split
  · rename_i h
    simp only [h, exists_keep_iff, takes_iff, cellsUnder_cons_self, Fills.cons_iff,
      cellsUnder_cons_of_ne hle, cellsUnder_cons_of_ne hli, cellsUnder_cons_of_ne hlr]
    grind
  rename_i hlabel
  split
  · rename_i h
    simp only [h, exists_keep_iff, takes_iff, cellsUnder_cons_self, Fills.cons_iff,
      cellsUnder_cons_of_ne hle.symm, cellsUnder_cons_of_ne hei, cellsUnder_cons_of_ne her]
    grind
  rename_i helapsed
  split
  · rename_i h
    simp only [h, exists_keep_iff, takes_iff, cellsUnder_cons_self, Fills.cons_iff,
      cellsUnder_cons_of_ne hli.symm, cellsUnder_cons_of_ne hei.symm, cellsUnder_cons_of_ne hir]
    grind
  rename_i hiterations
  split
  · rename_i h
    simp only [h, exists_keep_iff, takes_iff, cellsUnder_cons_self, Fills.cons_iff,
      cellsUnder_cons_of_ne hlr.symm, cellsUnder_cons_of_ne her.symm, cellsUnder_cons_of_ne hir.symm]
    grind [readRecordsCell]
  · rename_i hrecords
    simp only [takes_iff, cellsUnder_cons_of_ne hlabel, cellsUnder_cons_of_ne helapsed,
      cellsUnder_cons_of_ne hiterations, cellsUnder_cons_of_ne hrecords, Except.ok.injEq,
      exists_eq_left']

/-- A row is taken just where the cells under each name fill its field. -/
theorem addAll_eq_ok_iff {d d' : Draft} {column : Nat} {cells : List (String × String)} :
    d.addAll column cells = .ok d' ↔ Takes cells d d' := by
  induction cells generalizing d column with
  | nil =>
    rw [takes_nil_iff, addAll, Except.ok.injEq]
  | cons e rest ih =>
    obtain ⟨name, cell⟩ := e
    rw [takes_cons_iff column, addAll]
    cases d.add column name cell with
    | error fault => simp
    | ok next => simp [ih]

theorem finish_eq_ok_iff {d : Draft} {s : Sample Float} : d.finish = .ok s ↔
    d.label = some s.label ∧ d.elapsed = some s.elapsed ∧ d.iterations = some s.iterations ∧
      d.records.join = s.records := by
  obtain ⟨label, elapsed, iterations, records⟩ := d
  obtain ⟨label', elapsed', iterations', records'⟩ := s
  cases label <;> cases elapsed <;> cases iterations <;> simp [finish]

theorem add_ne_noIterations (d : Draft) (column : Nat) (name cell : String) :
    d.add column name cell ≠ .error .noIterations := by
  unfold add keep
  grind

theorem addAll_ne_noIterations (d : Draft) (column : Nat) (cells : List (String × String)) :
    d.addAll column cells ≠ .error .noIterations := by
  induction cells generalizing d column with
  | nil => simp [addAll]
  | cons e rest ih =>
    have hadd := add_ne_noIterations d column e.1 e.2
    rw [addAll]
    cases h : d.add column e.1 e.2 with
    | error fault => simpa [h] using hadd
    | ok next => exact ih next (column + 1)

theorem finish_ne_noIterations (d : Draft) : d.finish ≠ .error .noIterations := by
  unfold finish
  grind

end Draft

/-- The records that a row counts: none where there is no such column or its cell is empty. -/
inductive RecordsRead : List String → Option Float → Prop
  | absent : RecordsRead [] none
  | empty : RecordsRead [""] none
  | counted {cell : String} {v : Float} (hne : cell ≠ "") (h : readFloatCell cell = .ok v) :
      RecordsRead [cell] (some v)

/-- The sample has what the cells under the four names say. -/
structure CellsRead (cells : List (String × String)) (s : Sample Float) : Prop where
  label : cellsUnder Column.label cells = [s.label]
  elapsed : ∃ cell, cellsUnder Column.elapsed cells = [cell] ∧ readFloatCell cell = .ok s.elapsed
  iterations : ∃ cell, cellsUnder Column.iterations cells = [cell] ∧
    readWordCell cell = .ok s.iterations
  records : RecordsRead (cellsUnder Column.records cells) s.records

theorem mem_of_cellsUnder {name cell : String} {header cells : List String}
    (h : cell ∈ cellsUnder name (header.zip cells)) : cell ∈ cells := by
  obtain ⟨e, he, rfl⟩ := List.mem_map.mp h
  exact (List.of_mem_zip (List.mem_filter.mp he).1).2

theorem CellsRead.label_mem {header cells : List String} {s : Sample Float}
    (h : CellsRead (header.zip cells) s) : s.label ∈ cells :=
  mem_of_cellsUnder (h.label ▸ List.mem_singleton_self s.label)

theorem recordsRead_iff {cells : List String} {records : Option Float} :
    (∃ field, Fills readRecordsCell cells none field ∧ field.join = records) ↔
      RecordsRead cells records := by
  constructor
  · rintro ⟨field, ⟨⟩ | ⟨hread⟩, rfl⟩
    · exact .absent
    · rename_i cell v
      rw [readRecordsCell] at hread
      split at hread
      · rename_i hempty
        cases hread
        rw [String.isEmpty_iff.mp hempty]
        exact .empty
      · rename_i hne
        obtain ⟨value, hvalue, rfl⟩ := map_eq_ok_iff.mp hread
        exact .counted (by simpa using hne) hvalue
  · rintro (_ | _ | ⟨hne, hread⟩)
    · exact ⟨none, .absent none, rfl⟩
    · exact ⟨some none, .single rfl, rfl⟩
    · rename_i cell v
      refine ⟨some (some v), .single ?_, rfl⟩
      rw [readRecordsCell, if_neg (by simpa using hne), hread]
      rfl

section
variable {header cells : List String} {s : Sample Float}

theorem exists_draft_iff :
    (∃ d, Draft.addAll {} 0 (header.zip cells) = .ok d ∧ d.finish = .ok s) ↔
      CellsRead (header.zip cells) s := by
  simp only [Draft.addAll_eq_ok_iff, Draft.takes_iff, Draft.finish_eq_ok_iff]
  constructor
  · rintro ⟨⟨label, elapsed, iterations, records⟩, ⟨hl, he, hi, hr⟩, rfl, rfl, rfl, hrecords⟩
    obtain ⟨cell, hlabel, hcell⟩ := Fills.none_some_iff.mp hl
    cases hcell
    exact ⟨hlabel, Fills.none_some_iff.mp he, Fills.none_some_iff.mp hi,
      recordsRead_iff.mp ⟨records, hr, hrecords⟩⟩
  · rintro ⟨hl, he, hi, hr⟩
    obtain ⟨records, hfills, hrecords⟩ := recordsRead_iff.mpr hr
    exact ⟨⟨some s.label, some s.elapsed, some s.iterations, records⟩,
      ⟨Fills.none_some_iff.mpr ⟨_, hl, rfl⟩, Fills.none_some_iff.mpr he,
        Fills.none_some_iff.mpr hi, hfills⟩, rfl, rfl, rfl, hrecords⟩

theorem sampleOfCells_eq_ok_iff :
    sampleOfCells header cells = .ok s ↔ CellsRead (header.zip cells) s ∧ s.iterations ≠ 0 := by
  rw [← exists_draft_iff, sampleOfCells]
  cases Draft.addAll {} 0 (header.zip cells) with
  | error fault => simp
  | ok d =>
    cases hd : d.finish with
    | error fault => simp [hd]
    | ok drafted =>
      simp only [hd, Except.ok.injEq, exists_eq_left']
      grind

/-- What is wrong with a row is its count of iterations just where its cells are read and say zero. -/
theorem sampleOfCells_eq_noIterations_iff :
    sampleOfCells header cells = .error .noIterations ↔
      ∃ s, CellsRead (header.zip cells) s ∧ s.iterations = 0 := by
  have haddAll := Draft.addAll_ne_noIterations {} 0 (header.zip cells)
  simp only [← exists_draft_iff, sampleOfCells]
  cases hd : Draft.addAll {} 0 (header.zip cells) with
  | error fault => simpa [hd] using haddAll
  | ok d =>
    have hfinish := Draft.finish_ne_noIterations d
    cases hs : d.finish with
    | error fault => simpa [hs] using hfinish
    | ok drafted =>
      simp only [hs, Except.ok.injEq, exists_eq_left']
      grind

end

/-- The row has a cell for each column, and the sample what its cells say. -/
def RowReads (header : List String) (r : Delimited.Record) (s : Sample Float) : Prop :=
  ∃ cells, cellsOf header.length r = .ok cells ∧ CellsRead (header.zip cells) s

section
variable {header : List String} {r : Delimited.Record} {s : Sample Float}

theorem sampleOfRow_eq_ok_iff :
    sampleOfRow header r = .ok s ↔ RowReads header r s ∧ s.iterations ≠ 0 := by
  unfold sampleOfRow RowReads
  cases cellsOf header.length r with
  | error fault => simp
  | ok cells => simp [sampleOfCells_eq_ok_iff]

theorem exists_sampleOfRow_iff :
    (∃ s, sampleOfRow header r = .ok s) ↔ ∃ s, RowReads header r s ∧ s.iterations ≠ 0 :=
  exists_congr fun _ => sampleOfRow_eq_ok_iff

theorem cellsOf_ne_noIterations (width : Nat) (r : Delimited.Record) :
    cellsOf width r ≠ .error .noIterations := by
  unfold cellsOf
  grind

theorem sampleOfRow_eq_noIterations_iff :
    sampleOfRow header r = .error .noIterations ↔ ∃ s, RowReads header r s ∧ s.iterations = 0 := by
  have hcells := cellsOf_ne_noIterations header.length r
  unfold sampleOfRow RowReads
  cases h : cellsOf header.length r with
  | error fault => simpa [h] using hcells
  | ok cells => simp [sampleOfCells_eq_noIterations_iff]

end

end SweepReport
