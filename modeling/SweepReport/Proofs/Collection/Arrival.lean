import SweepReport.Collection
import SweepReport.Proofs.Builder.Finish
import SweepReport.Proofs.Samples

/-! Collecting as calls on a builder. Where every folder gives a result, the builder gets one call
for each folder, in the order of the folders and under its path. -/
namespace SweepReport
open TableBuilder (recordAll)

theorem result_resultIn (t : FileTree) (s : Settings) (metric : Metric) (dir : Path) :
    (resultIn t s metric dir).result =
      (samplesIn t (s.samplesFileIn dir)).bind fun samples =>
        (labelOfSamples samples (s.samplesFileIn dir)).bind fun l =>
          (summarize samples metric (s.samplesFileIn dir)).bind fun v => .ok (l, v) := by
  simp only [resultIn, result_readSamples, Noted.result_bind, Noted.result_ofExcept,
    Noted.result_note, Noted.result_pure]
  rfl

theorem TableBuilder.add_eq_ok_iff {α : Type} {b b' : TableBuilder α} {l : Label}
    {metric : Metric} {v : α} {path : Path} :
    b.add l metric v path = .ok b' ↔ b.record ⟨l, metric, v, path⟩ = (b', .ok ()) := by
  unfold add
  split <;> rename_i h <;> simp [h]

theorem TableBuilder.add_eq_error_iff {α : Type} {b : TableBuilder α} {as : List (Arrival α)}
    (h : Reflects b as) {l : Label} {metric : Metric} {v : α} {path : Path} {p : Problem} :
    b.add l metric v path = .error p ↔
      Reported as l metric ∧ p = .duplicate l metric path := by
  unfold add
  rcases h.answer ⟨l, metric, v, path⟩ with ⟨hr, he⟩ | ⟨hr, he⟩
  · simp only at hr
    simp [he, hr, eq_comm]
  · simp only at hr
    have hb : b.record ⟨l, metric, v, path⟩ = ((b.record ⟨l, metric, v, path⟩).1, .ok ()) :=
      Prod.ext rfl he
    rw [hb]
    simp [hr]

/-- The call is what its folder gives for the metric. -/
structure Arrived (t : FileTree) (s : Settings) (metric : Metric) (a : Arrival Float) : Prop where
  result : (resultIn t s metric a.path).result = .ok (a.label, a.value)
  metric_eq : a.metric = metric

section
variable {t : FileTree} {s : Settings} {metric : Metric}

theorem gatherDirs_cons (b : TableBuilder Float) (dir : Path) (dirs : List Path) :
    (gatherDirs t s metric b (dir :: dirs)).result =
      (resultIn t s metric dir).result.bind fun r =>
        (b.add r.1 metric r.2 dir).bind fun b => (gatherDirs t s metric b dirs).result := by
  simp only [gatherDirs, Noted.result_bind, Noted.result_ofExcept]

/-- A pass over folders succeeds when each gives a result and the builder takes all of them. -/
theorem gatherDirs_eq_ok_iff {b b' : TableBuilder Float} {dirs : List Path} :
    (gatherDirs t s metric b dirs).result = .ok b' ↔
      ∃ as : List (Arrival Float), as.map Arrival.path = dirs ∧
        (∀ a ∈ as, Arrived t s metric a) ∧ b.recordAll as = (b', as.map fun _ => .ok ()) := by
  induction dirs generalizing b with
  | nil => simp [gatherDirs, recordAll]
  | cons dir dirs ih =>
    simp only [gatherDirs_cons, bind_eq_ok_iff, ih, TableBuilder.add_eq_ok_iff]
    constructor
    · rintro ⟨⟨l, v⟩, hr, c, hc, as, rfl, has, hrec⟩
      refine ⟨⟨l, metric, v, dir⟩ :: as, rfl, ?_, by simp [recordAll, hc, hrec]⟩
      exact List.forall_mem_cons.mpr ⟨⟨hr, rfl⟩, has⟩
    · rintro ⟨as, hpaths, has, hrec⟩
      cases as with
      | nil => simp at hpaths
      | cons a as =>
        obtain ⟨rfl, rfl⟩ := List.cons.inj hpaths
        obtain ⟨⟨hr, rfl⟩, has⟩ := List.forall_mem_cons.mp has
        simp only [recordAll, List.map_cons, Prod.mk.injEq, List.cons.injEq] at hrec
        obtain ⟨hb, ha, hrest⟩ := hrec
        exact ⟨_, hr, _, Prod.ext rfl ha, as, rfl, has, Prod.ext hb hrest⟩

theorem exists_arrived_iff {dirs : List Path} :
    (∀ dir ∈ dirs, ∃ l v, (resultIn t s metric dir).result = .ok (l, v)) ↔
      ∃ as : List (Arrival Float), as.map Arrival.path = dirs ∧ ∀ a ∈ as, Arrived t s metric a := by
  constructor
  · intro h
    induction dirs with
    | nil => exact ⟨[], rfl, by simp⟩
    | cons dir dirs ih =>
      obtain ⟨⟨l, v, hr⟩, hrest⟩ := List.forall_mem_cons.mp h
      obtain ⟨as, rfl, has⟩ := ih hrest
      exact ⟨⟨l, metric, v, dir⟩ :: as, rfl, List.forall_mem_cons.mpr ⟨⟨hr, rfl⟩, has⟩⟩
  · rintro ⟨as, rfl, has⟩ dir hdir
    obtain ⟨a, ha, rfl⟩ := List.mem_map.mp hdir
    exact ⟨a.label, a.value, (has a ha).result⟩

/-- The calls are those of the metric's configuration folders. -/
structure Visits (t : FileTree) (s : Settings) (metric : Metric) (as : List (Arrival Float)) :
    Prop where
  dirs : configurationDirs t (s.root metric) = .ok (as.map Arrival.path)
  arrived : ∀ a ∈ as, Arrived t s metric a

theorem gatherRoots_cons (b : TableBuilder Float) (root : Path) (roots : List (Metric × Path)) :
    (gatherRoots t s b ((metric, root) :: roots)).result =
      (configurationDirs t root).bind fun dirs =>
        (gatherDirs t s metric b dirs).result.bind fun b => (gatherRoots t s b roots).result := by
  simp only [gatherRoots, Noted.result_bind, Noted.result_ofExcept, Noted.result_note]
  rfl

theorem gatherRoots_eq_ok_iff {b : TableBuilder Float} :
    (gatherRoots t s .empty s.roots).result = .ok b ↔
      ∃ rs ts, Visits t s .runtime rs ∧ Visits t s .throughput ts ∧
        (recordAll .empty (rs ++ ts)).2 = (rs ++ ts).map (fun _ => .ok ()) ∧
        b = .ofArrivals (rs ++ ts) := by
  have hroots : s.roots = [(.runtime, s.root .runtime), (.throughput, s.root .throughput)] := rfl
  simp only [hroots, gatherRoots_cons, bind_eq_ok_iff, gatherDirs_eq_ok_iff]
  constructor
  · intro h
    obtain ⟨dirs, hd, c, ⟨rs, hrs, hr, hrecord⟩, dirs', hd', c', ⟨ts, hts, ht, hrecord'⟩, hb⟩ := h
    cases hb
    have hall := TableBuilder.recordAll_append .empty rs ts
    simp only [hrecord, hrecord'] at hall
    exact ⟨rs, ts, ⟨hrs ▸ hd, hr⟩, ⟨hts ▸ hd', ht⟩, by simp [hall],
      by rw [TableBuilder.ofArrivals, hall]⟩
  · intro h
    obtain ⟨rs, ts, ⟨hd, hrs⟩, ⟨hd', hts⟩, hall, hb⟩ := h
    rw [TableBuilder.recordAll_append, List.map_append] at hall
    obtain ⟨hr, ht⟩ := List.append_inj hall (by simp [TableBuilder.length_answers])
    refine ⟨_, hd, _, ⟨rs, rfl, hrs, Prod.ext rfl hr⟩, _, hd', _, ⟨ts, rfl, hts, Prod.ext rfl ht⟩, ?_⟩
    rw [hb, TableBuilder.ofArrivals, TableBuilder.recordAll_append]
    rfl

theorem gatherTable_eq_ok_iff {table : ResultTable Float} :
    (gatherTable t s).result = .ok table ↔
      ∃ rs ts, Visits t s .runtime rs ∧ Visits t s .throughput ts ∧
        (recordAll .empty (rs ++ ts)).2 = (rs ++ ts).map (fun _ => .ok ()) ∧
        TableBuilder.toTable (.ofArrivals (rs ++ ts)) = .ok table := by
  simp only [gatherTable, Noted.result_bind, Noted.result_ofExcept, bind_eq_ok_iff,
    gatherRoots_eq_ok_iff]
  constructor
  · intro h
    obtain ⟨b, ⟨rs, ts, hr, ht, hall, hb⟩, htable⟩ := h
    exact ⟨rs, ts, hr, ht, hall, hb ▸ htable⟩
  · intro h
    obtain ⟨rs, ts, hr, ht, hall, htable⟩ := h
    exact ⟨_, ⟨rs, ts, hr, ht, hall, rfl⟩, htable⟩

end
end SweepReport
