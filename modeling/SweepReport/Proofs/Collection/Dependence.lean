import SweepReport.Proofs.Collection.Join

/-! What a collection depends on. Two trees with the same configuration folders, and the same under
the paths of their sample files, give the same results; how else they differ shows nowhere. -/
namespace SweepReport

/-- The root cannot be listed for the same reason, or has the same configuration folders. -/
def SameFolders (t t' : FileTree) (root : Path) : Prop :=
  (∃ cause, t.list root = .error cause ∧ t'.list root = .error cause) ∨
    (∃ es es', t.list root = .ok es ∧ t'.list root = .ok es') ∧
      ∀ name, Configures t root name ↔ Configures t' root name

/-- The trees have in common where configurations are, and what is read there: bytes, a folder in the
place of a file, or the reason why nothing is read. -/
structure LooksAlike (t t' : FileTree) (s : Settings) : Prop where
  folders : ∀ metric, SameFolders t t' (s.root metric)
  files : ∀ metric name, Configures t (s.root metric) name →
    t.fetch (s.samplesFileIn (s.root metric / ⟨name⟩)) =
      t'.fetch (s.samplesFileIn (s.root metric / ⟨name⟩))

/-- All that is got from the two trees is the same, what is noted on the way included. -/
structure SameResults (t t' : FileTree) (s : Settings) : Prop where
  dirs : ∀ metric, configurationDirs t (s.root metric) = configurationDirs t' (s.root metric)
  inventory : inventory t s = inventory t' s
  table : gatherTable t s = gatherTable t' s

section
variable {t t' : FileTree} {s : Settings}

/-- Ascending names are determined by which they are. -/
theorem configurationDirs_eq {root : Path} (h : SameFolders t t' root) :
    configurationDirs t root = configurationDirs t' root := by
  unfold configurationDirs
  rcases h with ⟨cause, ht, ht'⟩ | ⟨⟨es, es', ht, ht'⟩, hsame⟩
  · rw [ht, ht']
  · have hnames : configurationNames t root es = configurationNames t' root es' := by
      refine (ascending_configurationNames ht).eq_of_mem_iff
        (ascending_configurationNames ht') fun name => ?_
      rw [mem_configurationNames ht, mem_configurationNames ht', hsame]
    simp only [ht, ht', hnames]

theorem readSamples_eq {p : Path} (h : t.fetch p = t'.fetch p) :
    readSamples t p = readSamples t' p := by
  have hsamples : samplesIn t p = samplesIn t' p := by
    rw [samplesIn, samplesIn, h]
  rw [readSamples, readSamples, hsamples]

/-- The sample file of the folder reads the same. -/
def SameSamples (t t' : FileTree) (s : Settings) (dir : Path) : Prop :=
  t.fetch (s.samplesFileIn dir) = t'.fetch (s.samplesFileIn dir)

theorem gatherDirs_eq {metric : Metric} {dirs : List Path}
    (h : ∀ dir ∈ dirs, SameSamples t t' s dir) (b : TableBuilder Float) :
    gatherDirs t s metric b dirs = gatherDirs t' s metric b dirs := by
  induction dirs generalizing b with
  | nil => rfl
  | cons dir dirs ih =>
    obtain ⟨hdir, hdirs⟩ := List.forall_mem_cons.mp h
    have hresult : resultIn t s metric dir = resultIn t' s metric dir := by
      rw [resultIn, resultIn, readSamples_eq hdir]
    simp only [gatherDirs, hresult, ih hdirs]

theorem inventoryDirs_eq {metric : Metric} {dirs : List Path}
    (h : ∀ dir ∈ dirs, SameSamples t t' s dir) :
    inventoryDirs t s metric dirs = inventoryDirs t' s metric dirs := by
  induction dirs with
  | nil => rfl
  | cons dir dirs ih =>
    obtain ⟨hdir, hdirs⟩ := List.forall_mem_cons.mp h
    have hfirst : inventoryDir t s metric dir = inventoryDir t' s metric dir := by
      rw [inventoryDir, inventoryDir, readSamples_eq hdir]
    rw [inventoryDirs, inventoryDirs, hfirst, ih hdirs]

/-- What is done with the folders of a root matters only for the folders there are. -/
theorem bind_configurationDirs_eq {β : Type} {metric : Metric} (h : LooksAlike t t' s)
    {f g : List Path → Noted Problem β}
    (hfg : ∀ dirs, (∀ dir ∈ dirs, SameSamples t t' s dir) → f dirs = g dirs) :
    (Noted.ofExcept (configurationDirs t (s.root metric)) >>= f) =
      (Noted.ofExcept (configurationDirs t' (s.root metric)) >>= g) := by
  rw [← configurationDirs_eq (h.folders metric)]
  cases hdirs : configurationDirs t (s.root metric) with
  | error p => rfl
  | ok dirs =>
    obtain ⟨entries, hlist, hmap⟩ := configurationDirs_eq_ok_iff.mp hdirs
    have hsame : f dirs = g dirs := by
      refine hfg dirs fun dir hdir => ?_
      rw [hmap] at hdir
      obtain ⟨name, hname, hpath⟩ := List.mem_map.mp hdir
      rw [← hpath]
      exact h.files metric name ((mem_configurationNames hlist).mp hname)
    change Noted.bind _ f = Noted.bind _ g
    simp only [Noted.bind, Noted.ofExcept, hsame]

theorem gatherRoots_eq (h : LooksAlike t t' s) (metrics : List Metric) (b : TableBuilder Float) :
    gatherRoots t s b (metrics.map fun m => (m, s.root m)) =
      gatherRoots t' s b (metrics.map fun m => (m, s.root m)) := by
  induction metrics generalizing b with
  | nil => rfl
  | cons metric metrics ih =>
    simp only [List.map_cons, gatherRoots]
    refine bind_configurationDirs_eq h fun dirs hdirs => ?_
    simp only [gatherDirs_eq hdirs, ih]

theorem inventoryRoots_eq (h : LooksAlike t t' s) (metrics : List Metric) :
    inventoryRoots t s (metrics.map fun m => (m, s.root m)) =
      inventoryRoots t' s (metrics.map fun m => (m, s.root m)) := by
  induction metrics with
  | nil => rfl
  | cons metric metrics ih =>
    simp only [List.map_cons, inventoryRoots]
    refine bind_configurationDirs_eq h fun dirs hdirs => ?_
    rw [inventoryDirs_eq hdirs, ih]

theorem LooksAlike.sameResults (h : LooksAlike t t' s) : SameResults t t' s where
  dirs metric := configurationDirs_eq (h.folders metric)
  inventory := inventoryRoots_eq h Metric.all
  table := by
    rw [gatherTable, gatherTable, Settings.roots, gatherRoots_eq h Metric.all]

/-- The order in which a system lists is nothing that two trees have to have in common. -/
theorem looksAlike_of_reordered (h : t.Reordered t') (s : Settings) : LooksAlike t t' s where
  folders metric := by
    rcases h.list_perm (s.root metric) with hfail | ⟨es, es', ht, ht', hperm⟩
    · exact .inl hfail
    · refine .inr ⟨⟨es, es', ht, ht'⟩, fun name => ?_⟩
      rw [configures_iff ht, configures_iff ht', (hperm.map Prod.fst).mem_iff, FileTree.isFolder,
        h.fetch_eq]
      rfl
  files metric name _ := h.fetch_eq _

end

theorem nodup_paths {t : FileTree} {root : Path} {entries : List (OsString × Entry)}
    (h : t.list root = .ok entries) {names : List OsString} (hnodup : names.Nodup)
    (hnames : ∀ name ∈ names, Ordinary name) :
    (names.map fun name => root / (⟨name⟩ : Path)).Nodup := by
  obtain ⟨place, hplace, -, -⟩ := FileTree.mem_list_iff h
  have hraw : root.raw ≠ "" := (FileTree.resolve_eq_ok_iff.mp hplace).1
  refine List.Nodup.map_on ?_ hnodup
  intro a ha b hb hab
  have hbytes := congrArg Path.bytes hab
  rw [(hnames a ha).bytes_div hraw, (hnames b hb).bytes_div hraw, List.append_cancel_left_eq]
    at hbytes
  exact OsString.ext hbytes

/-- Trees that look alike give the same results, and so do two orders of listing one tree. What is
found under a root are the ways to its configuration folders, each once and ascending by name; these
are the listed folders but for the summary. -/
theorem results_rest_on_configurations :
    (∀ t t' s, LooksAlike t t' s → SameResults t t' s) ∧
    (∀ t t' s, FileTree.Reordered t t' → SameResults t t' s) ∧
    (∀ t root cause, FileTree.list t root = .error cause →
      configurationDirs t root = .error (.io root cause)) ∧
    ∀ t root entries, FileTree.list t root = .ok entries → ∃ names : List OsString,
      configurationDirs t root = .ok (names.map fun name => root / ⟨name⟩) ∧
      names.Pairwise (· < ·) ∧
      (∀ name, name ∈ names ↔ Configures t root name) ∧
      ((∀ name ∈ names, Ordinary name) →
        (names.map fun name => root / (⟨name⟩ : Path)).Nodup) ∧
      ∀ name, Ordinary name →
        (root / (⟨name⟩ : Path)).raw.size ≤ FileTree.pathLimit →
          (Configures t root name ↔ (name, .folder) ∈ entries ∧ name ≠ summaryDir) := by
  refine ⟨fun t t' s h => h.sameResults, fun t t' s h => (looksAlike_of_reordered h s).sameResults,
    fun t root cause h => ?_, fun t root entries h => ?_⟩
  · simp only [configurationDirs, h]
  · exact ⟨_, configurationDirs_eq_ok_iff.mpr ⟨entries, h, rfl⟩, ascending_configurationNames h,
      fun name => mem_configurationNames h, nodup_paths h (nodup_configurationNames h),
      fun name hname hlength => configures_iff_listed h hname hlength⟩

/-- The pair, listed in another order and among other things: a stray file beside a configuration, a
file in one, and a summary whose samples make no sense. -/
def strayTree : FileTree :=
  let sample (elapsed : String) : Entry := .file
    ("value,throughput_num,sample_measured_value,iteration_count\n\"2, 8 files\",1," ++ elapsed ++
      ",1\n").toUTF8
  ⟨[(.ofNames ["s", "a", "p", "g", "r"], sample "0"), (.ofNames ["a", "p", "g", "r"], .folder),
    (.ofNames ["x", "a", "p", "g", "r"], sample "1"), (.ofNames ["p", "g", "r"], .folder),
    (.ofNames ["s", "a", "t", "g", "r"], sample "5"), (.ofNames ["b", "t", "g", "r"], sample "2"),
    (.ofNames ["s", "report", "t", "g", "r"], .file "no samples".toUTF8),
    (.ofNames ["report", "t", "g", "r"], .folder), (.ofNames ["a", "t", "g", "r"], .folder),
    (.ofNames ["t", "g", "r"], .folder), (.ofNames ["g", "r"], .folder),
    (.ofNames ["r"], .folder)], by decide, .top⟩

theorem strays_look_alike : LooksAlike pairTree strayTree pairSettings := by
  have hpair (metric : Metric) :
      (pairTree.list (pairSettings.root metric)).toOption.map
        (configurationNames pairTree (pairSettings.root metric)) = some [("a" : OsString)] := by
    cases metric <;> decide +kernel
  have hstray (metric : Metric) :
      (strayTree.list (pairSettings.root metric)).toOption.map
        (configurationNames strayTree (pairSettings.root metric)) = some [("a" : OsString)] := by
    cases metric <;> decide +kernel
  have hnames {t : FileTree} {root : Path}
      (h : (t.list root).toOption.map (configurationNames t root) = some [("a" : OsString)]) :
      ∃ es, t.list root = .ok es ∧ ∀ name, Configures t root name ↔ name = "a" := by
    obtain ⟨es, hes, hmap⟩ := Option.map_eq_some_iff.mp h
    rw [toOption_eq_some_iff] at hes
    refine ⟨es, hes, fun name => ?_⟩
    rw [← mem_configurationNames hes, hmap, List.mem_singleton]
  refine ⟨fun metric => ?_, fun metric name hname => ?_⟩
  · obtain ⟨es, hes, hname⟩ := hnames (hpair metric)
    obtain ⟨es', hes', hname'⟩ := hnames (hstray metric)
    exact .inr ⟨⟨es, es', hes, hes'⟩, fun name => by rw [hname, hname']⟩
  · obtain ⟨es, -, hconfigures⟩ := hnames (hpair metric)
    rw [(hconfigures name).mp hname]
    cases metric <;> rfl

theorem strays_change_nothing : SameResults pairTree strayTree pairSettings ∧
    ∃ names : List OsString, configurationDirs strayTree ⟨"r/g/t"⟩ =
        .ok (names.map fun name => ⟨"r/g/t"⟩ / ⟨name⟩) ∧
      ∀ name, name ∈ names ↔ Configures strayTree ⟨"r/g/t"⟩ name := by
  obtain ⟨halike, -, -, hfound⟩ := results_rest_on_configurations
  refine ⟨halike _ _ _ strays_look_alike, ?_⟩
  obtain ⟨names, hdirs, -, hmem, -, -⟩ := hfound strayTree ⟨"r/g/t"⟩ _ rfl
  exact ⟨names, hdirs, hmem⟩

end SweepReport
