import SweepReport.Proofs.Collection.Join
import SweepReport.Proofs.Samples

/-! Collections that match folder by folder. The label and the means of a configuration come from its
sample files alone, so that two collections over folders with the same sample files give one table,
however the folders are called and in whatever order they are visited. -/
namespace SweepReport

/-- Under the new names, the second collection has the configuration folders of the first, with the
same in their sample files. -/
structure Matches (t : FileTree) (s : Settings) (t' : FileTree) (s' : Settings)
    (rename : Metric → OsString → OsString) : Prop where
  listed : ∀ metric, ∃ entries, t.list (s.root metric) = .ok entries
  listed' : ∀ metric, ∃ entries, t'.list (s'.root metric) = .ok entries
  folders : ∀ metric name, Configures t' (s'.root metric) name ↔
    ∃ old, Configures t (s.root metric) old ∧ rename metric old = name
  apart : ∀ metric a b, Configures t (s.root metric) a → Configures t (s.root metric) b →
    rename metric a = rename metric b → a = b
  files : ∀ metric name, Configures t (s.root metric) name →
    t'.fetch (s'.samplesFileIn (s'.root metric / ⟨rename metric name⟩)) =
      t.fetch (s.samplesFileIn (s.root metric / ⟨name⟩))

section
variable {t : FileTree} {s : Settings}

theorem IsJoin.get?_eq_some_iff {table : ResultTable Float} (h : IsJoin t s table) {l : Label}
    {m : Metrics Float} :
    table.get? l = some m ↔ ∀ metric, ∃ name samples path, Configures t (s.root metric) name ∧
      Measured t s metric (s.root metric / ⟨name⟩) l samples ∧
      summarize samples metric path = .ok (m.get metric) := by
  constructor
  · intro hget metric
    have hlabel : l ∈ table.labels := LabelMap.mem_labels_iff.mpr ⟨m, hget⟩
    obtain ⟨name, hname, samples, hm⟩ := (h.labels metric l).mp hlabel
    obtain ⟨n, hn, hvalue⟩ := h.values metric name l samples hname hm
    rw [hget, Option.some.injEq] at hn
    exact ⟨name, samples, _, hname, hm, hn ▸ hvalue⟩
  · intro hall
    -- The two means may be of different folders, but they are metrics of one entry.
    have hmetric (metric : Metric) : ∃ n, table.get? l = some n ∧ n.get metric = m.get metric := by
      obtain ⟨name, samples, path, hname, hm, hvalue⟩ := hall metric
      obtain ⟨n, hn, hvalue'⟩ := h.values metric name l samples hname hm
      rw [summarize_eq_ok_iff] at hvalue hvalue'
      obtain ⟨values, hvalues, hmean⟩ := hvalue
      obtain ⟨values', hvalues', hmean'⟩ := hvalue'
      rw [hvalues, Except.ok.injEq] at hvalues'
      rw [← hvalues', hmean, Option.some.injEq] at hmean'
      exact ⟨n, hn, hmean'.symm⟩
    obtain ⟨n, hn, hruntime⟩ := hmetric .runtime
    obtain ⟨k, hk, hthroughput⟩ := hmetric .throughput
    rw [hn, Option.some.injEq] at hk
    subst hk
    obtain ⟨a, b⟩ := n
    obtain ⟨c, d⟩ := m
    cases hruntime
    cases hthroughput
    exact hn

end

namespace Matches
variable {t t' : FileTree} {s s' : Settings} {rename : Metric → OsString → OsString}

theorem measured_iff (h : Matches t s t' s' rename) {metric : Metric} {name : OsString}
    (hname : Configures t (s.root metric) name) {l : Label} {samples : List (Sample Float)} :
    Measured t' s' metric (s'.root metric / ⟨rename metric name⟩) l samples ↔
      Measured t s metric (s.root metric / ⟨name⟩) l samples := by
  have hread : samplesIn t' (s'.samplesFileIn (s'.root metric / ⟨rename metric name⟩)) = .ok samples ↔
      samplesIn t (s.samplesFileIn (s.root metric / ⟨name⟩)) = .ok samples := by
    rw [samplesIn_eq_ok_iff, samplesIn_eq_ok_iff, h.files metric name hname]
  constructor
  · intro hm
    exact ⟨hread.mp hm.read, hm.labelled, hm.counted⟩
  · intro hm
    exact ⟨hread.mpr hm.read, hm.labelled, hm.counted⟩

theorem gives_iff (h : Matches t s t' s' rename) {metric : Metric} {name : OsString}
    (hname : Configures t (s.root metric) name) (l : Label) :
    Gives t' s' metric (rename metric name) l ↔ Gives t s metric name l :=
  exists_congr fun _ => h.measured_iff hname

theorem forall_iff (h : Matches t s t' s' rename) {metric : Metric} {P : OsString → Prop} :
    (∀ name, Configures t' (s'.root metric) name → P name) ↔
      ∀ name, Configures t (s.root metric) name → P (rename metric name) := by
  constructor
  · intro hall name hname
    exact hall _ ((h.folders metric _).mpr ⟨name, hname, rfl⟩)
  · intro hall name hname
    obtain ⟨old, hold, heq⟩ := (h.folders metric name).mp hname
    exact heq ▸ hall old hold

theorem exists_iff (h : Matches t s t' s' rename) {metric : Metric} {P : OsString → Prop} :
    (∃ name, Configures t' (s'.root metric) name ∧ P name) ↔
      ∃ name, Configures t (s.root metric) name ∧ P (rename metric name) := by
  constructor
  · intro hex
    obtain ⟨name, hname, hP⟩ := hex
    obtain ⟨old, hold, heq⟩ := (h.folders metric name).mp hname
    exact ⟨old, hold, heq ▸ hP⟩
  · intro hex
    obtain ⟨name, hname, hP⟩ := hex
    exact ⟨_, (h.folders metric _).mpr ⟨name, hname, rfl⟩, hP⟩

theorem found_iff (h : Matches t s t' s' rename) (metric : Metric) (l : Label) :
    Found t' s' metric l ↔ Found t s metric l := by
  rw [Found, h.exists_iff, Found]
  exact exists_congr fun name => and_congr_right fun hname => h.gives_iff hname l

theorem joinable_iff (h : Matches t s t' s' rename) : Joinable t' s' ↔ Joinable t s := by
  have hmeasured (metric : Metric) :
      (∀ name, Configures t' (s'.root metric) name → ∃ l, Gives t' s' metric name l) ↔
        ∀ name, Configures t (s.root metric) name → ∃ l, Gives t s metric name l := by
    rw [h.forall_iff]
    exact forall₂_congr fun name hname => exists_congr fun l => h.gives_iff hname l
  constructor
  · intro hjoin
    refine ⟨h.listed, fun metric => (hmeasured metric).mp (hjoin.measured metric),
      fun metric a b l ha hb hal hbl => ?_, fun l => ?_⟩
    · refine h.apart metric a b ha hb (hjoin.apart metric _ _ l ?_ ?_ ?_ ?_)
      · exact (h.folders metric _).mpr ⟨a, ha, rfl⟩
      · exact (h.folders metric _).mpr ⟨b, hb, rfl⟩
      · exact (h.gives_iff ha l).mpr hal
      · exact (h.gives_iff hb l).mpr hbl
    · rw [← h.found_iff, ← h.found_iff]
      exact hjoin.matched l
  · intro hjoin
    refine ⟨h.listed', fun metric => (hmeasured metric).mpr (hjoin.measured metric),
      fun metric a b l ha hb hal hbl => ?_, fun l => ?_⟩
    · obtain ⟨c, hc, hca⟩ := (h.folders metric a).mp ha
      obtain ⟨d, hd, hdb⟩ := (h.folders metric b).mp hb
      rw [← hca, h.gives_iff hc] at hal
      rw [← hdb, h.gives_iff hd] at hbl
      rw [← hca, ← hdb, hjoin.apart metric c d l hc hd hal hbl]
    · rw [h.found_iff, h.found_iff]
      exact hjoin.matched l

theorem join_unique (h : Matches t s t' s' rename) {table table' : ResultTable Float}
    (hjoin : IsJoin t s table) (hjoin' : IsJoin t' s' table') : table' = table := by
  refine LabelMap.ext_get? fun l => Option.ext fun m => ?_
  rw [hjoin'.get?_eq_some_iff, hjoin.get?_eq_some_iff]
  refine forall_congr' fun metric => ?_
  constructor
  · intro hex
    obtain ⟨name, samples, path, hname, hm, hvalue⟩ := hex
    obtain ⟨old, hold, heq⟩ := (h.folders metric name).mp hname
    exact ⟨old, samples, path, hold, (h.measured_iff hold).mp (heq ▸ hm), hvalue⟩
  · intro hex
    obtain ⟨name, samples, path, hname, hm, hvalue⟩ := hex
    exact ⟨_, samples, path, (h.folders metric _).mpr ⟨name, hname, rfl⟩,
      (h.measured_iff hname).mpr hm, hvalue⟩

theorem gatherTable_iff (h : Matches t s t' s' rename) (table : ResultTable Float) :
    (gatherTable t' s').result = .ok table ↔ (gatherTable t s).result = .ok table := by
  constructor
  · intro htable'
    have hjoinable := h.joinable_iff.mp (exists_gatherTable_iff.mp ⟨table, htable'⟩)
    obtain ⟨other, htable⟩ := exists_gatherTable_iff.mpr hjoinable
    rw [h.join_unique (isJoin_of_gatherTable htable) (isJoin_of_gatherTable htable'), htable]
  · intro htable
    have hjoinable := h.joinable_iff.mpr (exists_gatherTable_iff.mp ⟨table, htable⟩)
    obtain ⟨other, htable'⟩ := exists_gatherTable_iff.mpr hjoinable
    rw [← h.join_unique (isJoin_of_gatherTable htable) (isJoin_of_gatherTable htable'), htable']

end Matches
end SweepReport
