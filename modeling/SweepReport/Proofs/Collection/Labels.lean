import SweepReport.Proofs.Collection.Inventory
import SweepReport.Proofs.Label.Reading
import SweepReport.Proofs.Samples

/-! The labels that come out of the files. Cells are trimmed before they are read, so every label is
canonical: it reads back from what is written for it, and folders whose labels are written alike are
the ones that are joined. -/
namespace SweepReport
open Label (Canonical)

/-- One entry of the table has its runtime from the first folder and its throughput from the second. -/
def Joined (t : FileTree) (s : Settings) (table : ResultTable Float) (p q : Path) : Prop :=
  ∃ l m, table.get? l = some m ∧ (resultIn t s .runtime p).result = .ok (l, m.runtime) ∧
    (resultIn t s .throughput q).result = .ok (l, m.throughput)

section
variable {t : FileTree} {s : Settings} {metric : Metric} {dir : Path} {l : Label}

theorem canonical_of_samples {path : Path} {samples : List (Sample Float)}
    (hread : samplesIn t path = .ok samples) (h : labelOfSamples samples path = .ok l) :
    l.Canonical := by
  obtain ⟨first, hfirst, hlabel⟩ := labelOfSamples_eq_ok_iff.mp h
  exact Label.canonical_of_ofText (trimmed_label hread first (List.mem_of_mem_head? hfirst)) hlabel

theorem canonical_of_resultIn {v : Float} (h : (resultIn t s metric dir).result = .ok (l, v)) :
    l.Canonical := by
  obtain ⟨samples, hm, -⟩ := resultIn_eq_ok_iff.mp h
  exact canonical_of_samples hm.read (labelOfSamples_eq_ok_iff.mpr hm.labelled)

theorem canonical_of_inventoryDir {e : Listed} (h : (inventoryDir t s metric dir).result = .ok e) :
    e.label.Canonical := by
  simp only [result_inventoryDir, bind_eq_ok_iff] at h
  obtain ⟨samples, hread, l, hlabel, he⟩ := h
  cases he
  exact canonical_of_samples hread hlabel

theorem canonical_of_inventoryDirs {dirs : List Path} {found : List Listed}
    (h : (inventoryDirs t s metric dirs).result = .ok found) : ∀ e ∈ found, e.label.Canonical := by
  induction dirs generalizing found with
  | nil =>
    cases h
    simp
  | cons dir dirs ih =>
    simp only [inventoryDirs_cons, bind_eq_ok_iff] at h
    obtain ⟨first, hfirst, rest, hrest, hfound⟩ := h
    cases hfound
    exact List.forall_mem_cons.mpr ⟨canonical_of_inventoryDir hfirst, ih hrest⟩

theorem canonical_of_inventoryRoots {roots : List (Metric × Path)} {found : List Listed}
    (h : (inventoryRoots t s roots).result = .ok found) : ∀ e ∈ found, e.label.Canonical := by
  induction roots generalizing found with
  | nil =>
    cases h
    simp
  | cons e roots ih =>
    obtain ⟨metric, root⟩ := e
    simp only [inventoryRoots_cons, bind_eq_ok_iff] at h
    obtain ⟨dirs, -, first, hfirst, rest, hrest, hfound⟩ := h
    cases hfound
    intro e he
    rcases List.mem_append.mp he with he | he
    · exact canonical_of_inventoryDirs hfirst e he
    · exact ih hrest e he

theorem canonical_of_mem_table {table : ResultTable Float}
    (h : (gatherTable t s).result = .ok table) (hl : l ∈ table.labels) : l.Canonical := by
  obtain ⟨name, -, samples, hm⟩ := ((isJoin_of_gatherTable h).labels .runtime l).mp hl
  exact canonical_of_samples hm.read (labelOfSamples_eq_ok_iff.mpr hm.labelled)

/-- Each configuration folder of a collection has a result, which the table's entry of its label
holds. -/
theorem exists_result {table : ResultTable Float} (h : (gatherTable t s).result = .ok table)
    {name : OsString} (hname : Configures t (s.root metric) name) :
    ∃ l m, table.get? l = some m ∧
      (resultIn t s metric (s.root metric / ⟨name⟩)).result = .ok (l, m.get metric) := by
  obtain ⟨l, samples, hm⟩ := (exists_gatherTable_iff.mp ⟨table, h⟩).measured metric name hname
  obtain ⟨m, hget, hvalue⟩ := (isJoin_of_gatherTable h).values metric name l samples hname hm
  exact ⟨l, m, hget, resultIn_eq_ok_iff.mpr ⟨samples, hm, hvalue⟩⟩

end

/-- Every label of a listing, of a folder's result and of a table is canonical and reads back from its
text. Of two configuration folders, one under either root, the results are joined when their labels
are written alike, and only then. -/
theorem labels_canonical (t : FileTree) (s : Settings) :
    (∀ found, (inventory t s).result = .ok found →
      ∀ e ∈ found, e.label.Canonical ∧ Label.ofText e.label.text = .ok e.label) ∧
    (∀ metric dir l v, (resultIn t s metric dir).result = .ok (l, v) →
      l.Canonical ∧ Label.ofText l.text = .ok l) ∧
    ∀ table, (gatherTable t s).result = .ok table →
      (∀ l ∈ table.labels, l.Canonical ∧ Label.ofText l.text = .ok l) ∧
      ∀ name other, Configures t (s.root .runtime) name → Configures t (s.root .throughput) other →
        ∃ l v k w, (resultIn t s .runtime (s.root .runtime / ⟨name⟩)).result = .ok (l, v) ∧
          (resultIn t s .throughput (s.root .throughput / ⟨other⟩)).result = .ok (k, w) ∧
          (Joined t s table (s.root .runtime / ⟨name⟩) (s.root .throughput / ⟨other⟩) ↔
            l.text = k.text) := by
  have hreads {l : Label} (hl : l.Canonical) : l.Canonical ∧ Label.ofText l.text = .ok l :=
    ⟨hl, hl.ofText_text⟩
  refine ⟨fun found h e he => hreads (canonical_of_inventoryRoots h e he),
    fun metric dir l v h => hreads (canonical_of_resultIn h), fun table h =>
    ⟨fun l hl => hreads (canonical_of_mem_table h hl), fun name other hname hother => ?_⟩⟩
  obtain ⟨l, m, hget, hruntime⟩ := exists_result h hname
  obtain ⟨k, n, hget', hthroughput⟩ := exists_result h hother
  refine ⟨l, m.runtime, k, n.throughput, hruntime, hthroughput, ?_⟩
  rw [(canonical_of_resultIn hruntime).text_inj (canonical_of_resultIn hthroughput)]
  constructor
  · rintro ⟨label, means, -, hp, hq⟩
    rw [hruntime, Except.ok.injEq, Prod.mk.injEq] at hp
    rw [hthroughput, Except.ok.injEq, Prod.mk.injEq] at hq
    exact hp.1.trans hq.1.symm
  · rintro rfl
    rw [hget, Option.some.injEq] at hget'
    exact ⟨l, m, hget, hruntime, hget' ▸ hthroughput⟩

theorem pair_label_reads_back :
    ∃ table, (gatherTable pairTree pairSettings).result = .ok table ∧
      (Label.of "2" 8).Canonical ∧ Label.ofText "2, 8 files" = .ok (.of "2" 8) ∧
      Joined pairTree pairSettings table ⟨"r/g/t/a"⟩ ⟨"r/g/p/a"⟩ := by
  obtain ⟨table, htable, hlabels⟩ := pair_gathered
  obtain ⟨hall, hjoined⟩ := (labels_canonical pairTree pairSettings).2.2 table htable
  obtain ⟨hcanonical, hread⟩ := hall (.of "2" 8) (by simp [hlabels])
  have hname (metric : Metric) : Configures pairTree (pairSettings.root metric) "a" := by
    have hlist : (pairTree.list (pairSettings.root metric)).toOption.map (·.map Prod.fst) =
        some [("a" : OsString)] := by
      cases metric <;> decide +kernel
    obtain ⟨entries, hentries, hnames⟩ := Option.map_eq_some_iff.mp hlist
    refine ⟨entries, toOption_eq_some_iff.mp hentries, by simp [hnames], ?_, by decide⟩
    cases metric <;> decide +kernel
  have hlabel (metric : Metric) : (resultIn pairTree pairSettings metric
      (pairSettings.root metric / ⟨"a"⟩)).result.toOption.map Prod.fst = some (.of "2" 8) := by
    cases metric <;> decide +kernel
  obtain ⟨l, v, k, w, hl, hk, hiff⟩ := hjoined "a" "a" (hname .runtime) (hname .throughput)
  have hruntime := hlabel .runtime
  have hthroughput := hlabel .throughput
  simp only [hl, hk, Except.toOption, Option.map_some, Option.some.injEq] at hruntime hthroughput
  exact ⟨table, htable, hcanonical, hread, hiff.mpr (by rw [hruntime, hthroughput])⟩

end SweepReport
