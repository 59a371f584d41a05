import SweepReport.Proofs.Delimited
import SweepReport.Proofs.Samples.Rows

/-! The columns of a table may stand in any order, and beside columns that no sample is read from. A
row is read from the cells under the four names, and these are the same cells in whatever order; so
the samples are the same, or the first row that is none has the same number. -/
namespace SweepReport
open Delimited (AllText Bytes Record)
open Text (IsText)

def Column.known : List String := required ++ [records]

def columns (table : List Record) : List (List Bytes) :=
  (List.range (table.headD []).length).map fun j => table.map (·.getD j [])

def fieldText (field : Bytes) : String := (Text.decode field).toOption.getD ""

def columnName (column : List Bytes) : String := trimText (fieldText (column.getD 0 []))

def cellAt (i : Nat) (column : List Bytes) : String :=
  trimText (fieldText (Delimited.trim (column.getD i [])))

/-- The fields are texts, and every record is as wide as the header. -/
structure Rectangular (table : List Record) : Prop where
  text : ∀ r ∈ table, AllText r
  width : ∀ r ∈ table, r.length = (table.headD []).length

theorem decode_field {field : Bytes} (h : IsText field) :
    Text.decode field = .ok (fieldText field) := by
  obtain ⟨s, hs⟩ := Text.exists_decode_iff.mpr h
  rw [fieldText, hs]
  rfl

theorem textsOf_eq {r : Record} (h : AllText r) (index : Nat) :
    textsOf index r = .ok (r.map fieldText) := by
  induction r generalizing index with
  | nil => rfl
  | cons field r ih =>
    obtain ⟨hfield, hrest⟩ := List.forall_mem_cons.mp h
    rw [textsOf, decode_field hfield, ih hrest]
    rfl

section
variable {table : List Record}

theorem length_columns (table : List Record) :
    (columns table).length = (table.headD []).length := by
  simp [columns]

theorem Rectangular.row_eq (h : Rectangular table) {i : Nat} {r : Record}
    (hr : table[i]? = some r) : r = (columns table).map (·.getD i []) := by
  have hwidth := h.width r (List.mem_of_getElem? hr)
  refine List.ext_getElem (by rw [List.length_map, length_columns, hwidth]) fun j hj _ => ?_
  simp [columns, hr, hj]

theorem Rectangular.head_eq (h : Rectangular table) :
    table.headD [] = (columns table).map (·.getD 0 []) := by
  cases table with
  | nil => rfl
  | cons r rows => exact h.row_eq rfl

theorem Rectangular.headerOf_eq (h : Rectangular table) :
    headerOf (table.headD []) = .ok ((columns table).map columnName) := by
  have htext : AllText (table.headD []) := by
    cases table with
    | nil => exact nofun
    | cons r rows => exact h.text r List.mem_cons_self
  rw [headerOf, textsOf_eq htext, h.head_eq]
  simp [columnName, Functor.map, Except.map]

theorem Rectangular.cellsOf_eq (h : Rectangular table) {i : Nat} {r : Record}
    (hr : table[i]? = some r) :
    cellsOf ((columns table).map columnName).length r = .ok ((columns table).map (cellAt i)) := by
  have hmem := List.mem_of_getElem? hr
  have htext : AllText (r.map Delimited.trim) := by
    intro field hfield
    obtain ⟨raw, hraw, rfl⟩ := List.mem_map.mp hfield
    exact Delimited.isText_trim (h.text r hmem raw hraw)
  have hwidth : r.length = ((columns table).map columnName).length := by
    rw [List.length_map, length_columns, h.width r hmem]
  rw [cellsOf, if_neg (not_not_intro hwidth), textsOf_eq htext]
  conv_lhs => rw [h.row_eq hr]
  simp [cellAt]

def namedCells (i : Nat) (cols : List (List Bytes)) : List (String × String) :=
  cols.map fun column => (columnName column, cellAt i column)

theorem Rectangular.rowReads_iff (h : Rectangular table) {i : Nat} {r : Record}
    (hr : table[i]? = some r) {s : Sample Float} :
    RowReads ((columns table).map columnName) r s ↔ CellsRead (namedCells i (columns table)) s := by
  simp only [RowReads, h.cellsOf_eq hr, Except.ok.injEq, exists_eq_left', List.zip_map', namedCells]

end

/-- The columns in any order, among others that are not read. -/
def Relaid (cols cols' : List (List Bytes)) : Prop :=
  ∃ extra, cols'.Perm (cols ++ extra) ∧ ∀ column ∈ extra, columnName column ∉ Column.known

section
variable {cols cols' : List (List Bytes)}

/-- Under a name that is read, columns laid out anew have the same cells. -/
theorem Relaid.cellsUnder_perm (h : Relaid cols cols') (i : Nat) {name : String}
    (hname : name ∈ Column.known) :
    (cellsUnder name (namedCells i cols')).Perm (cellsUnder name (namedCells i cols)) := by
  obtain ⟨extra, hperm, hextra⟩ := h
  have hnone : cellsUnder name (namedCells i extra) = [] := by
    rw [cellsUnder, List.map_eq_nil_iff, List.filter_eq_nil_iff]
    intro e he
    obtain ⟨column, hcolumn, rfl⟩ := List.mem_map.mp he
    simpa using fun heq : columnName column = name => hextra column hcolumn (heq ▸ hname)
  have hall :
      cellsUnder name (namedCells i (cols ++ extra)) = cellsUnder name (namedCells i cols) := by
    rw [namedCells, List.map_append, cellsUnder, List.filter_append, List.map_append]
    exact (congrArg _ hnone).trans (List.append_nil _)
  rw [← hall]
  exact ((hperm.map _).filter _).map _

theorem Relaid.missing_eq (h : Relaid cols cols') :
    Column.missing (cols'.map columnName) = Column.missing (cols.map columnName) := by
  obtain ⟨extra, hperm, hextra⟩ := h
  rw [SweepReport.missing_eq, SweepReport.missing_eq]
  refine List.filter_congr fun name hname => ?_
  have hnone : name ∉ extra.map columnName := by
    intro hmem
    obtain ⟨column, hcolumn, rfl⟩ := List.mem_map.mp hmem
    exact hextra column hcolumn (List.mem_append_left _ hname)
  rw [decide_eq_decide, (hperm.map columnName).mem_iff, List.map_append, List.mem_append]
  simp [hnone]

end

theorem RecordsRead.of_perm {cells cells' : List String} {v : Option Float}
    (h : RecordsRead cells v) (hperm : cells'.Perm cells) : RecordsRead cells' v := by
  cases h with
  | absent => exact hperm.eq_nil ▸ .absent
  | empty => exact List.perm_singleton.mp hperm ▸ .empty
  | counted hne hread => exact List.perm_singleton.mp hperm ▸ .counted hne hread

/-- What is read from a row rests on the cells under each name, in whatever order. -/
theorem CellsRead.of_perm {cells cells' : List (String × String)} {s : Sample Float}
    (h : CellsRead cells s)
    (hperm : ∀ name ∈ Column.known, (cellsUnder name cells').Perm (cellsUnder name cells)) :
    CellsRead cells' s := by
  have hsingle {name cell : String} (hname : name ∈ Column.known)
      (hcell : cellsUnder name cells = [cell]) : cellsUnder name cells' = [cell] :=
    List.perm_singleton.mp (hcell ▸ hperm name hname)
  obtain ⟨elapsed, helapsed, hreadElapsed⟩ := h.elapsed
  obtain ⟨iterations, hiterations, hreadIterations⟩ := h.iterations
  refine ⟨hsingle (by decide) h.label, ⟨_, hsingle (by decide) helapsed, hreadElapsed⟩,
    ⟨_, hsingle (by decide) hiterations, hreadIterations⟩, h.records.of_perm (hperm _ (by decide))⟩

theorem Relaid.cellsRead_iff {cols cols' : List (List Bytes)} (h : Relaid cols cols') (i : Nat)
    {s : Sample Float} : CellsRead (namedCells i cols') s ↔ CellsRead (namedCells i cols) s :=
  ⟨fun hread => hread.of_perm fun _ hname => (h.cellsUnder_perm i hname).symm,
    fun hread => hread.of_perm fun _ hname => h.cellsUnder_perm i hname⟩

/-- Two rows that read as the same samples, each under its header. -/
def RowsAlike (header header' : List String) (r r' : Record) : Prop :=
  ∀ s, RowReads header r s ↔ RowReads header' r' s

/-- Two readings with the same samples, or refused for the same missing columns or at the same row.
A row that counts no iterations is refused for that in both. -/
inductive ReadAlike : Except Malformed (List (Sample Float)) →
    Except Malformed (List (Sample Float)) → Prop
  | samples (samples : List (Sample Float)) : ReadAlike (.ok samples) (.ok samples)
  | missing (names : List String) :
    ReadAlike (.error (.missingColumns names)) (.error (.missingColumns names))
  | row (number : Nat) {fault fault' : RowFault}
    (h : fault = .noIterations ↔ fault' = .noIterations) :
    ReadAlike (.error (.row number fault)) (.error (.row number fault'))

section
variable {header header' : List String} {r r' : Record} {rows rows' : List Record}

theorem RowsAlike.sampleOfRow_eq_ok_iff (h : RowsAlike header header' r r') {s : Sample Float} :
    sampleOfRow header r = .ok s ↔ sampleOfRow header' r' = .ok s := by
  rw [SweepReport.sampleOfRow_eq_ok_iff, SweepReport.sampleOfRow_eq_ok_iff, h s]

theorem RowsAlike.noIterations_iff (h : RowsAlike header header' r r') :
    sampleOfRow header r = .error .noIterations ↔
      sampleOfRow header' r' = .error .noIterations := by
  simp only [sampleOfRow_eq_noIterations_iff, h _]

/-- Rows that are alike one by one are read alike. -/
theorem readAlike_rows (h : List.Forall₂ (RowsAlike header header') rows rows') (number : Nat) :
    ReadAlike (samplesOfRows header number rows) (samplesOfRows header' number rows') := by
  induction h generalizing number with
  | nil => exact .samples []
  | cons hrow _ ih =>
    rename_i r r' rows rows' _
    rw [samplesOfRows, samplesOfRows]
    cases hr : sampleOfRow header r with
    | ok s =>
      rw [hrow.sampleOfRow_eq_ok_iff.mp hr]
      dsimp only
      have hrest := ih (number + 1)
      generalize samplesOfRows header (number + 1) rows = reading at hrest ⊢
      generalize samplesOfRows header' (number + 1) rows' = reading' at hrest ⊢
      cases hrest with
      | samples samples => exact .samples (s :: samples)
      | missing names => exact .missing names
      | row number h => exact .row number h
    | error fault =>
      cases hr' : sampleOfRow header' r' with
      | ok s =>
        rw [hrow.sampleOfRow_eq_ok_iff.mpr hr'] at hr
        contradiction
      | error fault' =>
        have hsame := hrow.noIterations_iff
        rw [hr, hr', Except.error.injEq, Except.error.injEq] at hsame
        exact .row number hsame

end

section
variable {table table' : List Record}

theorem length_of_mem_columns {column : List Bytes} (h : column ∈ columns table) :
    column.length = table.length := by
  obtain ⟨j, -, rfl⟩ := List.mem_map.mp h
  rw [List.length_map]

theorem Relaid.length_eq (h : Relaid (columns table) (columns table')) (hne : columns table ≠ []) :
    table'.length = table.length := by
  obtain ⟨extra, hperm, -⟩ := h
  obtain ⟨column, hcolumn⟩ := List.exists_mem_of_ne_nil _ hne
  rw [← length_of_mem_columns hcolumn,
    ← length_of_mem_columns (hperm.mem_iff.mpr (List.mem_append_left extra hcolumn))]

theorem Relaid.rowsAlike (h : Rectangular table) (h' : Rectangular table')
    (hlaid : Relaid (columns table) (columns table')) (hne : columns table ≠ []) :
    List.Forall₂ (RowsAlike ((columns table).map columnName) ((columns table').map columnName))
      table.tail table'.tail := by
  refine List.forall₂_iff_get.mpr ⟨?_, fun i hi hi' s => ?_⟩
  · rw [List.length_tail, List.length_tail, hlaid.length_eq hne]
  · rw [h.rowReads_iff (i := i + 1) (by simp), h'.rowReads_iff (i := i + 1) (by simp),
      hlaid.cellsRead_iff]

end

/-- Tables whose columns are laid out anew are read alike. -/
theorem readAlike_tables {table table' : List Record} (h : Rectangular table)
    (h' : Rectangular table') (hlaid : Relaid (columns table) (columns table')) :
    ReadAlike (samplesOfTable table) (samplesOfTable table') := by
  rw [samplesOfTable, samplesOfTable, h.headerOf_eq, h'.headerOf_eq]
  dsimp only
  rw [hlaid.missing_eq]
  split
  · rename_i hnone
    refine readAlike_rows (hlaid.rowsAlike h h' fun hnil => ?_) 1
    rw [hnil] at hnone
    contradiction
  · exact .missing _

/-- A file of samples is a text, and all its records are as long as the header. -/
structure WellFormed (content : ByteArray) : Prop where
  text : ∃ s, Text.decode content.toList = .ok s
  width : ∀ r ∈ Delimited.records content.toList,
    r.length = ((Delimited.records content.toList).headD []).length

theorem WellFormed.rectangular {content : ByteArray} (h : WellFormed content) :
    Rectangular (Delimited.records content.toList) :=
  ⟨Delimited.allText_records (Text.exists_decode_iff.mp h.text), h.width⟩

/-- The order of the columns of a file, and columns of other names among them, do not matter to what
is read: the samples are the same, or both files are refused, for the same missing columns or at the
same row. -/
theorem columns_stand_in_any_order {t t' : FileTree} {path path' : Path}
    {content content' : ByteArray} (hfile : t.fetch path = .ok (.file content))
    (hfile' : t'.fetch path' = .ok (.file content')) (hformed : WellFormed content)
    (hformed' : WellFormed content') {extra : List (List Bytes)} (hlayout : (columns (Delimited.records content'.toList)).Perm
      (columns (Delimited.records content.toList) ++ extra))
    (hextra : ∀ column ∈ extra, columnName column ∉ Column.known) :
    ∃ reading reading', ReadAlike reading reading' ∧
      (readSamples t path).result = reading.mapError (.malformed path) ∧
      (readSamples t' path').result = reading'.mapError (.malformed path') := by
  refine ⟨samplesOfBytes content, samplesOfBytes content', ?_, ?_, ?_⟩
  · exact readAlike_tables hformed.rectangular hformed'.rectangular ⟨extra, hlayout, hextra⟩
  · rw [result_readSamples, samplesIn, hfile]
  · rw [result_readSamples, samplesIn, hfile']

/-- Two cells of the second row are bad. -/
def inOneOrder : ByteArray :=
  ("value,sample_measured_value,iteration_count\n" ++
    "\"1, 2 files\",10,5\n\"1, 2 files\",soon,many\n").toUTF8

def inOtherOrder : ByteArray :=
  ("iteration_count,unit,sample_measured_value,value\n" ++
    "5,ns,10,\"1, 2 files\"\nmany,ns,soon,\"1, 2 files\"\n").toUTF8

def orderedFiles : FileTree :=
  ⟨[(.ofNames ["one"], .file inOneOrder), (.ofNames ["other"], .file inOtherOrder)], by decide,
    .top⟩

theorem same_row_in_either_order :
    (∃ fault, (readSamples orderedFiles ⟨"one"⟩).result =
      .error (.malformed ⟨"one"⟩ (.row 2 fault))) ∧
    ∃ fault, (readSamples orderedFiles ⟨"other"⟩).result =
      .error (.malformed ⟨"other"⟩ (.row 2 fault)) := by
  have hone : WellFormed inOneOrder := ⟨exists_eq_ok_iff.mpr (by decide +kernel), by decide +kernel⟩
  have hother : WellFormed inOtherOrder :=
    ⟨exists_eq_ok_iff.mpr (by decide +kernel), by decide +kernel⟩
  have hlayout : (columns (Delimited.records inOtherOrder.toList)).Perm
      (columns (Delimited.records inOneOrder.toList) ++
        [["unit", "ns", "ns"].map (·.toUTF8.toList)]) := by
    decide +kernel
  have hfile : orderedFiles.fetch ⟨"one"⟩ = .ok (.file inOneOrder) := rfl
  have hfile' : orderedFiles.fetch ⟨"other"⟩ = .ok (.file inOtherOrder) := rfl
  obtain ⟨reading, reading', halike, hfirst, hsecond⟩ :=
    columns_stand_in_any_order hfile hfile' hone hother hlayout (by decide +kernel)
  have hrow : (match (readSamples orderedFiles ⟨"one"⟩).result with
      | .error problem => decide (problem = .malformed ⟨"one"⟩ (.row 2 (.cell 1 (.float .invalid))))
      | .ok _ => false) = true := by
    decide +kernel
  rw [hfirst] at hrow
  rw [hfirst, hsecond]
  cases halike with
  | samples samples => contradiction
  | missing names => cases of_decide_eq_true hrow
  | row number hsame =>
    cases of_decide_eq_true hrow
    exact ⟨⟨_, rfl⟩, _, rfl⟩

end SweepReport
