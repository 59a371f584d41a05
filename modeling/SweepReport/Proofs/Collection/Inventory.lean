import SweepReport.Proofs.Collection.Join

/-! The listing beside the table. It walks the folders by itself and summarizes nothing; where a table
comes out it succeeds too, and it has the folders that the table's means are from, one for each label
under either root. -/
namespace SweepReport
open TableBuilder (Separate)

def Listed.ofArrival (a : Arrival Float) : Listed := ⟨a.metric, a.path, a.label⟩

def listedFor (found : List Listed) (metric : Metric) : List Listed :=
  found.filter fun e => e.metric = metric

/-- The listing has one entry for each metric and label of the table and no others: those of the
runtimes first, and those of one metric by the names of their folders. -/
structure Accounts (t : FileTree) (s : Settings) (found : List Listed) (table : ResultTable Float) :
    Prop where
  once : ∀ metric l, found.countP (fun e => e.metric = metric ∧ e.label = l) =
    if l ∈ table.labels then 1 else 0
  size : found.length = 2 * table.size
  inOrder : found = listedFor found .runtime ++ listedFor found .throughput
  ascending : ∀ metric, ∃ names : List OsString, names.Pairwise (· < ·) ∧
    (listedFor found metric).map Listed.dir = names.map (s.root metric / ⟨·⟩) ∧
    ((∀ name ∈ names, Ordinary name) →
      ((listedFor found metric).map Listed.dir).Pairwise fun p q => p.parts < q.parts)
  means : ∀ e ∈ found, ∃ m, table.get? e.label = some m ∧
    (resultIn t s e.metric e.dir).result = .ok (e.label, m.get e.metric)

section
variable {t : FileTree} {s : Settings} {metric : Metric}

theorem result_inventoryDir (dir : Path) :
    (inventoryDir t s metric dir).result =
      (samplesIn t (s.samplesFileIn dir)).bind fun samples =>
        (labelOfSamples samples (s.samplesFileIn dir)).bind fun l => .ok ⟨metric, dir, l⟩ := by
  simp only [inventoryDir, result_readSamples, Noted.result_bind, Noted.result_ofExcept,
    Noted.result_pure]

theorem inventoryDirs_cons (dir : Path) (dirs : List Path) :
    (inventoryDirs t s metric (dir :: dirs)).result =
      (inventoryDir t s metric dir).result.bind fun first =>
        (inventoryDirs t s metric dirs).result.bind fun rest => .ok (first :: rest) := by
  simp only [inventoryDirs, Noted.result_bind, Noted.result_pure]

theorem inventoryRoots_cons (root : Path) (roots : List (Metric × Path)) :
    (inventoryRoots t s ((metric, root) :: roots)).result =
      (configurationDirs t root).bind fun dirs =>
        (inventoryDirs t s metric dirs).result.bind fun found =>
          (inventoryRoots t s roots).result.bind fun rest => .ok (found ++ rest) := by
  simp only [inventoryRoots, Noted.result_bind, Noted.result_ofExcept, Noted.result_pure]

theorem Arrived.inventoryDir_eq {a : Arrival Float} (h : Arrived t s metric a) :
    (inventoryDir t s metric a.path).result = .ok (.ofArrival a) := by
  have hresult := h.result
  simp only [result_resultIn, bind_eq_ok_iff] at hresult
  obtain ⟨samples, hread, l, hlabel, v, -, hpair⟩ := hresult
  obtain ⟨hl, -⟩ := Prod.mk.inj (Except.ok.inj hpair)
  rw [result_inventoryDir, hread]
  change (labelOfSamples samples _).bind _ = _
  rw [hlabel, hl, ← h.metric_eq]
  rfl

theorem inventoryDirs_eq_ok {as : List (Arrival Float)} (h : ∀ a ∈ as, Arrived t s metric a) :
    (inventoryDirs t s metric (as.map Arrival.path)).result = .ok (as.map .ofArrival) := by
  induction as with
  | nil => rfl
  | cons a as ih =>
    obtain ⟨ha, has⟩ := List.forall_mem_cons.mp h
    rw [List.map_cons, inventoryDirs_cons, ha.inventoryDir_eq, ih has]
    rfl

/-- Where both passes give calls, the listing has an entry for each of them, in their order. -/
theorem inventory_eq_ok {rs ts : List (Arrival Float)} (hr : Visits t s .runtime rs)
    (ht : Visits t s .throughput ts) :
    (inventory t s).result = .ok (rs.map .ofArrival ++ ts.map .ofArrival) := by
  have hroots : s.roots = [(.runtime, s.root .runtime), (.throughput, s.root .throughput)] := rfl
  rw [inventory, hroots, inventoryRoots_cons, inventoryRoots_cons, hr.dirs, ht.dirs]
  simp only [Except.bind, inventoryDirs_eq_ok hr.arrived, inventoryDirs_eq_ok ht.arrived,
    inventoryRoots, Noted.result_pure, List.append_nil]

theorem Visits.listedFor_eq {as : List (Arrival Float)} (h : Visits t s metric as) (other : Metric) :
    listedFor (as.map .ofArrival) other = if metric = other then as.map .ofArrival else [] := by
  have hmetric (e : Listed) (he : e ∈ as.map Listed.ofArrival) : e.metric = metric := by
    obtain ⟨a, ha, hentry⟩ := List.mem_map.mp he
    rw [← hentry]
    exact (h.arrived a ha).metric_eq
  by_cases hm : metric = other
  · rw [if_pos hm, listedFor, List.filter_eq_self]
    intro e he
    simp [hmetric e he, hm]
  · rw [if_neg hm, listedFor, List.filter_eq_nil_iff]
    intro e he
    simp [hmetric e he, hm]

theorem Visits.exists_ascending {as : List (Arrival Float)} (h : Visits t s metric as) :
    ∃ names : List OsString, names.Pairwise (· < ·) ∧
      as.map Arrival.path = names.map (s.root metric / ⟨·⟩) ∧
      ((∀ name ∈ names, Ordinary name) →
        (as.map Arrival.path).Pairwise fun p q => p.parts < q.parts) := by
  obtain ⟨entries, hlist, hmap⟩ := configurationDirs_eq_ok_iff.mp h.dirs
  have hnames := ascending_configurationNames hlist
  refine ⟨_, hnames, hmap, fun hordinary => ?_⟩
  obtain ⟨place, hplace, -, -⟩ := FileTree.mem_list_iff hlist
  have htext : (s.root metric).raw ≠ "" := (FileTree.resolve_eq_ok_iff.mp hplace).1
  rw [hmap, List.pairwise_map]
  refine hnames.imp_of_mem fun {a b} ha hb hab => ?_
  rw [(hordinary a ha).parts_div htext, (hordinary b hb).parts_div htext]
  exact List.append_left_lt (List.cons_lt_cons_iff.mpr (.inl hab))

end

/-- A label's entries of one metric are those of the folders that give it: one where it is in the
table, and none elsewhere. -/
theorem count_listedFor {found : List Listed} {metric : Metric} {labels : List Label}
    (hperm : ((listedFor found metric).map Listed.label).Perm labels) (hnodup : labels.Nodup)
    (l : Label) :
    found.countP (fun e => e.metric = metric ∧ e.label = l) = if l ∈ labels then 1 else 0 := by
  have hcount : found.countP (fun e => e.metric = metric ∧ e.label = l) =
      ((listedFor found metric).map Listed.label).count l := by
    rw [List.count, List.countP_map, listedFor, List.countP_filter]
    refine List.countP_congr fun e _ => ?_
    simp [and_comm]
  rw [hcount, hperm.count_eq, hnodup.count]

theorem listedFor_append (found rest : List Listed) (metric : Metric) :
    listedFor (found ++ rest) metric = listedFor found metric ++ listedFor rest metric :=
  List.filter_append ..

section
variable {t : FileTree} {s : Settings} {rs ts : List (Arrival Float)} {table : ResultTable Float}

theorem Visits.listedFor_both (hr : Visits t s .runtime rs) (ht : Visits t s .throughput ts) :
    listedFor (rs.map .ofArrival ++ ts.map .ofArrival) .runtime = rs.map .ofArrival ∧
      listedFor (rs.map .ofArrival ++ ts.map .ofArrival) .throughput = ts.map .ofArrival := by
  constructor
  · rw [listedFor_append, hr.listedFor_eq, ht.listedFor_eq]
    simp
  · rw [listedFor_append, hr.listedFor_eq, ht.listedFor_eq]
    simp

theorem Visits.exists_mean {metric : Metric} {as : List (Arrival Float)} (h : Visits t s metric as)
    (hjoin : IsJoin t s table) {a : Arrival Float} (ha : a ∈ as) :
    ∃ m, table.get? a.label = some m ∧
      (resultIn t s a.metric a.path).result = .ok (a.label, m.get a.metric) := by
  obtain ⟨name, hname, hpath⟩ := h.exists_name ha
  obtain ⟨samples, hmeasured, hvalue⟩ := (h.arrived a ha).exists_measured
  rw [hpath] at hmeasured hvalue
  obtain ⟨m, hget, hmean⟩ := hjoin.values metric name a.label samples hname hmeasured
  rw [hvalue, Except.ok.injEq] at hmean
  refine ⟨m, hget, ?_⟩
  rw [(h.arrived a ha).metric_eq, ← hmean]
  exact (h.arrived a ha).result

theorem accounts_of_visits (hr : Visits t s .runtime rs) (ht : Visits t s .throughput ts)
    (hall : (TableBuilder.recordAll .empty (rs ++ ts)).2 = (rs ++ ts).map fun _ => .ok ())
    (htable : TableBuilder.toTable (.ofArrivals (rs ++ ts)) = .ok table) :
    Accounts t s (rs.map .ofArrival ++ ts.map .ofArrival) table := by
  have hjoin := isJoin_of_visits hr ht hall htable
  obtain ⟨hrs, hts⟩ := (all_recorded_iff hr ht).mp hall
  obtain ⟨hruntime, hthroughput⟩ := hr.listedFor_both ht
  have hcalls (metric : Metric) : ∃ as, Visits t s metric as ∧ Separate as ∧
      listedFor (rs.map .ofArrival ++ ts.map .ofArrival) metric = as.map .ofArrival := by
    cases metric with
    | runtime => exact ⟨rs, hr, hrs, hruntime⟩
    | throughput => exact ⟨ts, ht, hts, hthroughput⟩
  refine ⟨fun metric l => ?_, ?_, ?_, fun metric => ?_, fun e he => ?_⟩
  · obtain ⟨as, hvisits, hapart, hfor⟩ := hcalls metric
    refine count_listedFor ?_ table.nodup_labels l
    rw [hfor, List.map_map]
    exact hvisits.labels_perm hapart table.nodup_labels (hjoin.labels metric)
  · have hlength : table.size = table.labels.length := by simp [ResultTable.size, LabelMap.labels]
    have hruntimes := hr.length_eq hrs table.nodup_labels (hjoin.labels .runtime)
    have hthroughputs := ht.length_eq hts table.nodup_labels (hjoin.labels .throughput)
    rw [List.length_append, List.length_map, List.length_map, hruntimes, hthroughputs, hlength]
    omega
  · rw [hruntime, hthroughput]
  · obtain ⟨as, hvisits, -, hfor⟩ := hcalls metric
    rw [hfor, List.map_map]
    exact hvisits.exists_ascending
  · cases List.mem_append.mp he with
    | inl he =>
      obtain ⟨a, ha, hentry⟩ := List.mem_map.mp he
      rw [← hentry]
      exact hr.exists_mean hjoin ha
    | inr he =>
      obtain ⟨a, ha, hentry⟩ := List.mem_map.mp he
      rw [← hentry]
      exact ht.exists_mean hjoin ha

end

/-- Where there is a table the listing succeeds and accounts for it, so a listing that fails leaves no
table to be had. -/
theorem inventory_accounts (t : FileTree) (s : Settings) :
    (∀ table, (gatherTable t s).result = .ok table →
      ∃ found, (inventory t s).result = .ok found ∧ Accounts t s found table) ∧
    ∀ p, (inventory t s).result = .error p → ∃ q, (gatherTable t s).result = .error q := by
  have haccounts (table : ResultTable Float) (h : (gatherTable t s).result = .ok table) :
      ∃ found, (inventory t s).result = .ok found ∧ Accounts t s found table := by
    obtain ⟨rs, ts, hr, ht, hall, htable⟩ := gatherTable_eq_ok_iff.mp h
    exact ⟨_, inventory_eq_ok hr ht, accounts_of_visits hr ht hall htable⟩
  refine ⟨haccounts, fun p hp => ?_⟩
  cases hgather : (gatherTable t s).result with
  | error q => exact ⟨q, rfl⟩
  | ok table =>
    obtain ⟨found, hfound, -⟩ := haccounts table hgather
    rw [hp] at hfound
    contradiction

/-- The pair's two folders are listed one after the other; where there is no root, both fail. -/
theorem pair_is_accounted_for :
    (∃ table found, (gatherTable pairTree pairSettings).result = .ok table ∧
      (inventory pairTree pairSettings).result = .ok found ∧
      found = [⟨.runtime, ⟨"r/g/t/a"⟩, .of "2" 8⟩, ⟨.throughput, ⟨"r/g/p/a"⟩, .of "2" 8⟩] ∧
      Accounts pairTree pairSettings found table) ∧
    (inventory .start pairSettings).result = .error (.io ⟨"r/g/t"⟩ .notFound) ∧
      ∃ q, (gatherTable .start pairSettings).result = .error q := by
  refine ⟨?_, ?_⟩
  · obtain ⟨table, htable, -⟩ := pair_gathered
    obtain ⟨found, hfound, haccounts⟩ := (inventory_accounts pairTree pairSettings).1 table htable
    have hinventory : (inventory pairTree pairSettings).result.toOption =
        some [⟨.runtime, ⟨"r/g/t/a"⟩, .of "2" 8⟩, ⟨.throughput, ⟨"r/g/p/a"⟩, .of "2" 8⟩] := by
      decide +kernel
    rw [toOption_eq_some_iff, hfound, Except.ok.injEq] at hinventory
    exact ⟨table, found, htable, hfound, hinventory, haccounts⟩
  · have hfails : (inventory .start pairSettings).result = .error (.io ⟨"r/g/t"⟩ .notFound) := by
      decide +kernel
    exact ⟨hfails, (inventory_accounts .start pairSettings).2 _ hfails⟩

end SweepReport
