import Mathlib.Data.List.Pairwise
import SweepReport.Proofs.Collection.Folders
import SweepReport.Proofs.Collection.Arrival
import SweepReport.Proofs.Summary.Rows

/-! Collecting as a join. The table has an entry for every label that some folder of each root
gives, with the means of the two folders that give it. -/
namespace SweepReport
open TableBuilder

/-- The folder's file gives samples of the metric, and the first of them names the label. -/
structure Measured (t : FileTree) (s : Settings) (metric : Metric) (dir : Path) (l : Label)
    (samples : List (Sample Float)) : Prop where
  read : samplesIn t (s.samplesFileIn dir) = .ok samples
  labelled : ∃ first, samples.head? = some first ∧ Label.ofText first.label = .ok l
  counted : metric = .throughput → ∀ x ∈ samples, x.records.isSome

def Gives (t : FileTree) (s : Settings) (metric : Metric) (name : OsString) (l : Label) : Prop :=
  ∃ samples, Measured t s metric (s.root metric / ⟨name⟩) l samples

def Found (t : FileTree) (s : Settings) (metric : Metric) (l : Label) : Prop :=
  ∃ name, Configures t (s.root metric) name ∧ Gives t s metric name l

def Clash (t : FileTree) (s : Settings) (metric : Metric) (p q : Path) : Prop :=
  ∃ l samples others, Measured t s metric p l samples ∧ Measured t s metric q l others

/-- What the two roots must be like for their folders to be joined. -/
structure Joinable (t : FileTree) (s : Settings) : Prop where
  listed : ∀ metric, ∃ entries, t.list (s.root metric) = .ok entries
  measured : ∀ metric name, Configures t (s.root metric) name → ∃ l, Gives t s metric name l
  apart : ∀ metric name other l, Configures t (s.root metric) name →
    Configures t (s.root metric) other → Gives t s metric name l → Gives t s metric other l →
    name = other
  matched : ∀ l, Found t s .runtime l ↔ Found t s .throughput l

/-- The table of the labels that are found, each once, where the metrics of a label are the means in
the folders that give it. -/
structure IsJoin (t : FileTree) (s : Settings) (table : ResultTable Float) : Prop where
  labels : ∀ metric l, l ∈ table.labels ↔ Found t s metric l
  once : table.labels.Nodup
  values : ∀ metric name l samples, Configures t (s.root metric) name →
    Measured t s metric (s.root metric / ⟨name⟩) l samples → ∃ m, table.get? l = some m ∧
      summarize samples metric (s.samplesFileIn (s.root metric / ⟨name⟩)) = .ok (m.get metric)
  counted : ∀ metric, ∃ names : List OsString, names.Nodup ∧
    (∀ name, name ∈ names ↔ Configures t (s.root metric) name) ∧ names.length = table.size

section
variable {t : FileTree} {s : Settings} {metric : Metric}

theorem labelOfSamples_eq_ok_iff {samples : List (Sample Float)} {path : Path} {l : Label} :
    labelOfSamples samples path = .ok l ↔
      ∃ first, samples.head? = some first ∧ Label.ofText first.label = .ok l := by
  cases samples with
  | nil => simp [labelOfSamples]
  | cons x xs => simp [labelOfSamples, mapError_eq_ok_iff]

theorem resultIn_eq_ok_iff {dir : Path} {l : Label} {v : Float} :
    (resultIn t s metric dir).result = .ok (l, v) ↔
      ∃ samples, Measured t s metric dir l samples ∧
        summarize samples metric (s.samplesFileIn dir) = .ok v := by
  simp only [result_resultIn, bind_eq_ok_iff, labelOfSamples_eq_ok_iff]
  constructor
  · rintro ⟨samples, hread, l', hl, v', hv, ⟨⟩⟩
    exact ⟨samples, ⟨hread, hl, (exists_summarize_iff.mp ⟨v, hv⟩).2⟩, hv⟩
  · rintro ⟨samples, hm, hv⟩
    exact ⟨samples, hm.read, l, hm.labelled, v, hv, rfl⟩

theorem Measured.exists_summarize {dir : Path} {l : Label} {samples : List (Sample Float)}
    (h : Measured t s metric dir l samples) (path : Path) :
    ∃ v, summarize samples metric path = .ok v := by
  refine exists_summarize_iff.mpr ⟨?_, h.counted⟩
  rintro rfl
  obtain ⟨first, hf, -⟩ := h.labelled
  simp at hf

theorem Measured.unique {dir : Path} {l k : Label} {samples others : List (Sample Float)}
    (h : Measured t s metric dir l samples) (h' : Measured t s metric dir k others) :
    samples = others ∧ l = k := by
  have hs := h'.read
  rw [h.read, Except.ok.injEq] at hs
  subst hs
  obtain ⟨first, hf, hl⟩ := h.labelled
  obtain ⟨_, hf', hk⟩ := h'.labelled
  rw [hf, Option.some.injEq] at hf'
  subst hf'
  rw [hl, Except.ok.injEq] at hk
  exact ⟨rfl, hk⟩

theorem Clash.symm {p q : Path} (h : Clash t s metric p q) : Clash t s metric q p := by
  obtain ⟨l, samples, others, hp, hq⟩ := h
  exact ⟨l, others, samples, hq, hp⟩

theorem Arrived.exists_measured {a : Arrival Float} (h : Arrived t s metric a) :
    ∃ samples, Measured t s metric a.path a.label samples ∧
      summarize samples metric (s.samplesFileIn a.path) = .ok a.value :=
  resultIn_eq_ok_iff.mp h.result

theorem exists_visits_iff :
    (∃ as, Visits t s metric as) ↔ (∃ entries, t.list (s.root metric) = .ok entries) ∧
      ∀ name, Configures t (s.root metric) name → ∃ l, Gives t s metric name l := by
  constructor
  · rintro ⟨as, hdirs, has⟩
    obtain ⟨entries, hlist, hmap⟩ := configurationDirs_eq_ok_iff.mp hdirs
    refine ⟨⟨entries, hlist⟩, fun name hname => ?_⟩
    have hmem : s.root metric / ⟨name⟩ ∈ as.map Arrival.path := by
      rw [hmap]
      exact List.mem_map_of_mem ((mem_configurationNames hlist).mpr hname)
    obtain ⟨a, ha, hpath⟩ := List.mem_map.mp hmem
    obtain ⟨samples, hm, -⟩ := (has a ha).exists_measured
    exact ⟨a.label, samples, hpath ▸ hm⟩
  · rintro ⟨⟨entries, hlist⟩, hgives⟩
    have hall : ∀ dir ∈ (configurationNames t (s.root metric) entries).map (s.root metric / ⟨·⟩),
        ∃ l v, (resultIn t s metric dir).result = .ok (l, v) := by
      intro dir hdir
      obtain ⟨name, hname, rfl⟩ := List.mem_map.mp hdir
      obtain ⟨l, samples, hm⟩ := hgives name ((mem_configurationNames hlist).mp hname)
      obtain ⟨v, hv⟩ := hm.exists_summarize (s.samplesFileIn (s.root metric / ⟨name⟩))
      exact ⟨l, v, resultIn_eq_ok_iff.mpr ⟨samples, hm, hv⟩⟩
    obtain ⟨as, hpaths, has⟩ := exists_arrived_iff.mp hall
    exact ⟨as, configurationDirs_eq_ok_iff.mpr ⟨entries, hlist, hpaths⟩, has⟩

namespace Visits
variable {as : List (Arrival Float)}

theorem exists_names (h : Visits t s metric as) :
    ∃ names : List OsString, names.Nodup ∧
      (∀ name, name ∈ names ↔ Configures t (s.root metric) name) ∧
      as.map Arrival.path = names.map (s.root metric / ⟨·⟩) := by
  obtain ⟨entries, hlist, hmap⟩ := configurationDirs_eq_ok_iff.mp h.dirs
  exact ⟨_, nodup_configurationNames hlist, fun _ => mem_configurationNames hlist, hmap⟩

theorem exists_name (h : Visits t s metric as) {a : Arrival Float} (ha : a ∈ as) :
    ∃ name, Configures t (s.root metric) name ∧ a.path = s.root metric / ⟨name⟩ := by
  obtain ⟨names, -, hmem, hmap⟩ := h.exists_names
  have hpath := List.mem_map_of_mem (f := Arrival.path) ha
  rw [hmap] at hpath
  obtain ⟨name, hname, heq⟩ := List.mem_map.mp hpath
  exact ⟨name, (hmem name).mp hname, heq.symm⟩

theorem exists_arrival (h : Visits t s metric as) {name : OsString}
    (hname : Configures t (s.root metric) name) : ∃ a ∈ as, a.path = s.root metric / ⟨name⟩ := by
  obtain ⟨names, -, hmem, hmap⟩ := h.exists_names
  have hpath := List.mem_map_of_mem (f := (s.root metric / ⟨·⟩)) ((hmem name).mpr hname)
  rw [← hmap] at hpath
  exact List.mem_map.mp hpath

theorem reported_iff (h : Visits t s metric as) {l : Label} {other : Metric} :
    Reported as l other ↔ other = metric ∧ Found t s metric l := by
  constructor
  · rintro ⟨a, ha, rfl, rfl⟩
    obtain ⟨name, hname, hpath⟩ := h.exists_name ha
    obtain ⟨samples, hm, -⟩ := (h.arrived a ha).exists_measured
    exact ⟨(h.arrived a ha).metric_eq, name, hname, samples, hpath ▸ hm⟩
  · rintro ⟨rfl, name, hname, samples, hm⟩
    obtain ⟨a, ha, hpath⟩ := h.exists_arrival hname
    obtain ⟨others, hm', -⟩ := (h.arrived a ha).exists_measured
    rw [hpath] at hm'
    exact ⟨a, ha, (hm'.unique hm).2, (h.arrived a ha).metric_eq⟩

theorem pairwise_iff (h : Visits t s metric as) :
    Separate as ↔
      ∀ name other l, Configures t (s.root metric) name → Configures t (s.root metric) other →
        Gives t s metric name l → Gives t s metric other l → name = other := by
  obtain ⟨names, hnodup, hmem, hmap⟩ := h.exists_names
  have hcalls : Separate as ↔
      as.Pairwise (fun a c => ¬ Clash t s metric a.path c.path) := by
    refine List.Pairwise.iff_of_mem fun {a c} ha hc => not_congr ?_
    obtain ⟨samples, hm, -⟩ := (h.arrived a ha).exists_measured
    obtain ⟨others, hm', -⟩ := (h.arrived c hc).exists_measured
    constructor
    · rintro ⟨hl, -⟩
      exact ⟨a.label, samples, others, hm, hl ▸ hm'⟩
    · rintro ⟨l, _, _, hp, hq⟩
      refine ⟨(hm.unique hp).2.trans (hm'.unique hq).2.symm, ?_⟩
      rw [(h.arrived a ha).metric_eq, (h.arrived c hc).metric_eq]
  rw [hcalls, ← List.pairwise_map (f := Arrival.path) (R := fun p q => ¬ Clash t s metric p q),
    hmap, List.pairwise_map]
  constructor
  · intro hp name other l hname hother ⟨samples, hm⟩ ⟨others, hm'⟩
    by_contra hne
    have : Std.Symm fun p q : OsString =>
        ¬ Clash t s metric (s.root metric / ⟨p⟩) (s.root metric / ⟨q⟩) :=
      ⟨fun p q hpq hqp => hpq hqp.symm⟩
    exact hp.forall ((hmem name).mpr hname) ((hmem other).mpr hother) hne
      ⟨l, samples, others, hm, hm'⟩
  · intro hapart
    refine hnodup.pairwise_of_forall_ne fun name hname other hother hne => ?_
    rintro ⟨l, samples, others, hm, hm'⟩
    exact hne (hapart name other l ((hmem name).mp hname) ((hmem other).mp hother) ⟨samples, hm⟩
      ⟨others, hm'⟩)

/-- Where no two folders give one label, a call's value is the mean of the folder that gives its
label. -/
theorem summarize_eq_value (h : Visits t s metric as) (hp : Separate as) {name : OsString}
    {l : Label} {samples : List (Sample Float)} (hname : Configures t (s.root metric) name)
    (hm : Measured t s metric (s.root metric / ⟨name⟩) l samples) {a : Arrival Float} (ha : a ∈ as)
    (hl : a.label = l) :
    summarize samples metric (s.samplesFileIn (s.root metric / ⟨name⟩)) = .ok a.value := by
  obtain ⟨other, hother, hpath⟩ := h.exists_name ha
  obtain ⟨others, hm', hv⟩ := (h.arrived a ha).exists_measured
  rw [hpath] at hm' hv
  subst hl
  have hname := h.pairwise_iff.mp hp name other a.label hname hother ⟨samples, hm⟩ ⟨others, hm'⟩
  subst hname
  rwa [(hm.unique hm').1]

/-- The folders give the labels that are found, each once, when no two give one label. -/
theorem labels_perm (h : Visits t s metric as) (hp : Separate as) {labels : List Label}
    (hnodup : labels.Nodup) (hmem : ∀ l, l ∈ labels ↔ Found t s metric l) :
    (as.map Arrival.label).Perm labels := by
  refine (List.perm_ext_iff_of_nodup ?_ hnodup).mpr fun l => ?_
  · refine List.pairwise_map.mpr (hp.imp_of_mem fun {a c} ha hc hne heq => hne ⟨heq, ?_⟩)
    rw [(h.arrived a ha).metric_eq, (h.arrived c hc).metric_eq]
  · rw [hmem, List.mem_map]
    constructor
    · rintro ⟨a, ha, hl⟩
      exact (h.reported_iff.mp ⟨a, ha, hl, (h.arrived a ha).metric_eq⟩).2
    · intro hl
      obtain ⟨a, ha, hal, -⟩ := h.reported_iff.mpr ⟨rfl, hl⟩
      exact ⟨a, ha, hal⟩

theorem length_eq (h : Visits t s metric as) (hp : Separate as) {labels : List Label}
    (hnodup : labels.Nodup) (hmem : ∀ l, l ∈ labels ↔ Found t s metric l) :
    as.length = labels.length := by
  simpa using (h.labels_perm hp hnodup hmem).length_eq

end Visits

section
variable {rs ts : List (Arrival Float)}

theorem reported_append_iff (hr : Visits t s .runtime rs) (ht : Visits t s .throughput ts)
    (l : Label) (metric : Metric) : Reported (rs ++ ts) l metric ↔ Found t s metric l := by
  rw [reported_append, hr.reported_iff, ht.reported_iff]
  cases metric <;> simp

/-- The builder takes the calls of both roots when no root gives a label twice. -/
theorem all_recorded_iff (hr : Visits t s .runtime rs) (ht : Visits t s .throughput ts) :
    (recordAll .empty (rs ++ ts)).2 = (rs ++ ts).map (fun _ => .ok ()) ↔
      Separate rs ∧ Separate ts := by
  rw [reflects_empty.all_ok_iff, Separate, List.pairwise_append]
  have hcross : ∀ a ∈ rs, ∀ c ∈ ts, ¬ (a.label = c.label ∧ a.metric = c.metric) := by
    rintro a ha c hc ⟨-, h⟩
    rw [(hr.arrived a ha).metric_eq, (ht.arrived c hc).metric_eq] at h
    contradiction
  constructor
  · exact fun h => ⟨h.2.1, h.2.2.1⟩
  · exact fun h => ⟨fun c _ => by simp [Reported], h.1, h.2, hcross⟩

theorem complete_append_iff (hr : Visits t s .runtime rs) (ht : Visits t s .throughput ts) :
    Complete (rs ++ ts) ↔ ∀ l, Found t s .runtime l ↔ Found t s .throughput l := by
  simp only [Complete, occurs_iff, reported_append_iff hr ht]
  constructor
  · exact fun h l => ⟨fun hl => h l ⟨_, hl⟩ _, fun hl => h l ⟨_, hl⟩ _⟩
  · rintro h l ⟨metric, hl⟩ other
    cases metric <;> cases other
    · exact hl
    · exact (h l).mp hl
    · exact (h l).mpr hl
    · exact hl

theorem isJoin_of_visits (hr : Visits t s .runtime rs) (ht : Visits t s .throughput ts)
    (hall : (recordAll .empty (rs ++ ts)).2 = (rs ++ ts).map fun _ => .ok ())
    {table : ResultTable Float} (htable : toTable (.ofArrivals (rs ++ ts)) = .ok table) :
    IsJoin t s table := by
  have hb := reflects_ofArrivals (rs ++ ts)
  obtain ⟨hrs, hts⟩ := (all_recorded_iff hr ht).mp hall
  have hlabels (metric : Metric) (l : Label) : l ∈ table.labels ↔ Found t s metric l := by
    rw [← reported_append_iff hr ht, hb.mem_labels_iff htable]
    exact ⟨fun hl => hb.complete htable l hl metric, fun hl => occurs_iff.mpr ⟨metric, hl⟩⟩
  refine ⟨hlabels, table.nodup_labels, ?_, ?_⟩
  · intro metric name l samples hname hm
    have hfound : Found t s metric l := ⟨name, hname, samples, hm⟩
    obtain ⟨m, hget⟩ := LabelMap.mem_labels_iff.mp ((hlabels metric l).mpr hfound)
    refine ⟨m, hget, ?_⟩
    obtain ⟨a, ha, hl, hmetric, hv⟩ :=
      exists_of_firstValue ((hb.get?_eq_some_iff htable l m).mp hget metric)
    rw [← hv]
    rcases List.mem_append.mp ha with ha | ha
    · cases (hr.arrived a ha).metric_eq.symm.trans hmetric
      exact hr.summarize_eq_value hrs hname hm ha hl
    · cases (ht.arrived a ha).metric_eq.symm.trans hmetric
      exact ht.summarize_eq_value hts hname hm ha hl
  · intro metric
    have hnames {as : List (Arrival Float)} (h : Visits t s metric as) (hp : Separate as) :
        ∃ names : List OsString, names.Nodup ∧
          (∀ name, name ∈ names ↔ Configures t (s.root metric) name) ∧
          names.length = table.size := by
      obtain ⟨names, hnodup, hmem, hmap⟩ := h.exists_names
      have hlength : as.length = table.labels.length :=
        h.length_eq hp table.nodup_labels (hlabels metric)
      have hpaths := congrArg List.length hmap
      rw [List.length_map, List.length_map, hlength] at hpaths
      exact ⟨names, hnodup, hmem, by rw [← hpaths]; simp [LabelMap.labels, ResultTable.size]⟩
    cases metric
    · exact hnames hr hrs
    · exact hnames ht hts

end
end

theorem isJoin_of_gatherTable {t : FileTree} {s : Settings} {table : ResultTable Float}
    (h : (gatherTable t s).result = .ok table) : IsJoin t s table := by
  obtain ⟨rs, ts, hr, ht, hall, htable⟩ := gatherTable_eq_ok_iff.mp h
  exact isJoin_of_visits hr ht hall htable

theorem exists_gatherTable_iff {t : FileTree} {s : Settings} :
    (∃ table, (gatherTable t s).result = .ok table) ↔ Joinable t s := by
  refine ⟨?_, fun h => ?_⟩
  · simp only [gatherTable_eq_ok_iff]
    rintro ⟨table, rs, ts, hr, ht, hall, htable⟩
    obtain ⟨hrs, hts⟩ := (all_recorded_iff hr ht).mp hall
    have hcomplete := (reflects_ofArrivals (rs ++ ts)).complete htable
    have hvisited (metric : Metric) : ∃ as, Visits t s metric as ∧ Separate as := by
      cases metric
      · exact ⟨rs, hr, hrs⟩
      · exact ⟨ts, ht, hts⟩
    refine ⟨fun metric => ?_, fun metric => ?_, fun metric => ?_,
      (complete_append_iff hr ht).mp hcomplete⟩
    all_goals obtain ⟨as, hvisits, hapart⟩ := hvisited metric
    · exact (exists_visits_iff.mp ⟨as, hvisits⟩).1
    · exact (exists_visits_iff.mp ⟨as, hvisits⟩).2
    · exact hvisits.pairwise_iff.mp hapart
  · obtain ⟨rs, hr⟩ := exists_visits_iff.mpr ⟨h.listed .runtime, h.measured .runtime⟩
    obtain ⟨ts, ht⟩ := exists_visits_iff.mpr ⟨h.listed .throughput, h.measured .throughput⟩
    have hrs := hr.pairwise_iff.mpr (h.apart .runtime)
    have hts := ht.pairwise_iff.mpr (h.apart .throughput)
    obtain ⟨table, htable⟩ := (reflects_ofArrivals (rs ++ ts)).exists_toTable_iff.mpr
      ((complete_append_iff hr ht).mpr h.matched)
    have hall := (all_recorded_iff hr ht).mpr ⟨hrs, hts⟩
    exact ⟨table, gatherTable_eq_ok_iff.mpr ⟨rs, ts, hr, ht, hall, htable⟩⟩

/-- A table comes out exactly when the folders of the two roots can be joined, and it is their
join. -/
theorem gatherTable_joins (t : FileTree) (s : Settings) :
    ((∃ table, (gatherTable t s).result = .ok table) ↔ Joinable t s) ∧
      ∀ table, (gatherTable t s).result = .ok table → IsJoin t s table :=
  ⟨exists_gatherTable_iff, fun _ h => isJoin_of_gatherTable h⟩

/-- One configuration under either root. Its throughput was measured in a batch that took no
time. -/
def pairTree : FileTree :=
  let sample (elapsed : String) : Entry := .file
    ("value,throughput_num,sample_measured_value,iteration_count\n\"2, 8 files\",1," ++ elapsed ++
      ",1\n").toUTF8
  ⟨[(.ofNames ["r"], .folder), (.ofNames ["g", "r"], .folder), (.ofNames ["t", "g", "r"], .folder),
    (.ofNames ["a", "t", "g", "r"], .folder), (.ofNames ["s", "a", "t", "g", "r"], sample "5"),
    (.ofNames ["p", "g", "r"], .folder), (.ofNames ["a", "p", "g", "r"], .folder),
    (.ofNames ["s", "a", "p", "g", "r"], sample "0")], by decide, .top⟩

def pairSettings : Settings :=
  { resultsDir := ⟨"r"⟩, group := "g", runtimeDir := "t", throughputDir := "p", samplesFile := ⟨"s"⟩ }

theorem pair_gathered :
    ∃ table, (gatherTable pairTree pairSettings).result = .ok table ∧
      table.labels = [.of "2" 8] := by
  have hgather : (gatherTable pairTree pairSettings).result.toOption.map LabelMap.labels =
      some [.of "2" 8] := by
    decide +kernel
  obtain ⟨table, htable, hlabels⟩ := Option.map_eq_some_iff.mp hgather
  exact ⟨table, toOption_eq_some_iff.mp htable, hlabels⟩

theorem pair_is_joined :
    ∃ table, (gatherTable pairTree pairSettings).result = .ok table ∧
      table.labels = [.of "2" 8] ∧ IsJoin pairTree pairSettings table := by
  obtain ⟨table, htable, hlabels⟩ := pair_gathered
  exact ⟨table, htable, hlabels, (gatherTable_joins pairTree pairSettings).2 table htable⟩

end SweepReport
