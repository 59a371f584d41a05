import SweepReport.Proofs.Collection.Join

/-! Which problem a collection reports. A collection is a list of steps, each of which fails or passes
by itself; the problem is that of the first step that fails. -/
namespace SweepReport
open TableBuilder

/-- The steps of a collection: a root is listed, then every folder's samples are read, the first of
them looked for, its label read, the samples summarized and the mean recorded; at last the labels of
both roots are compared. -/
inductive Step where
  | list (metric : Metric)
  | read (metric : Metric) (name : OsString)
  | sample (metric : Metric) (name : OsString)
  | label (metric : Metric) (name : OsString)
  | summarize (metric : Metric) (name : OsString)
  | record (metric : Metric) (name : OsString)
  | join

def visited (t : FileTree) (root : Path) : List OsString :=
  match t.list root with
  | .error _ => []
  | .ok entries => configurationNames t root entries

def samplesPath (s : Settings) (metric : Metric) (name : OsString) : Path :=
  s.samplesFileIn (s.root metric / ⟨name⟩)

def folderSteps (metric : Metric) (name : OsString) : List Step :=
  [.read metric name, .sample metric name, .label metric name, .summarize metric name,
    .record metric name]

def rootSteps (t : FileTree) (s : Settings) (metric : Metric) : List Step :=
  .list metric :: (visited t (s.root metric)).flatMap (folderSteps metric)

def steps (t : FileTree) (s : Settings) : List Step :=
  Metric.all.flatMap (rootSteps t s) ++ [.join]

/-- What is wrong with a step, whatever the other steps do. A label is recorded twice when a folder
that is visited before gives it too; labels do not join when one is found in all roots but one. -/
def Step.Fails (t : FileTree) (s : Settings) : Step → Problem → Prop
  | .list metric, p => ∃ cause, t.list (s.root metric) = .error cause ∧ p = .io (s.root metric) cause
  | .read metric name, p => samplesIn t (samplesPath s metric name) = .error p
  | .sample metric name, p =>
    samplesIn t (samplesPath s metric name) = .ok [] ∧ p = .noSamples (samplesPath s metric name)
  | .label metric name, p => ∃ first rest u,
    samplesIn t (samplesPath s metric name) = .ok (first :: rest) ∧
      Label.ofText first.label = .error u ∧
      p = .invalidLabel (samplesPath s metric name) first.label
  | .summarize metric name, p => metric = .throughput ∧ ∃ before x after,
    samplesIn t (samplesPath s metric name) = .ok (before ++ x :: after) ∧
      (∀ y ∈ before, y.records.isSome) ∧ x.records = none ∧
      p = .malformed (samplesPath s metric name) (.noRecords (before.length + 1))
  | .record metric name, p => ∃ other l, Configures t (s.root metric) other ∧ other < name ∧
    Gives t s metric other l ∧ Gives t s metric name l ∧
    p = .duplicate l metric (s.root metric / ⟨name⟩)
  | .join, p => ∃ l missing, (∀ metric, Found t s metric l ↔ metric ≠ missing) ∧
    (∀ k, k < l → (Found t s .runtime k ↔ Found t s .throughput k)) ∧ p = .incomplete l missing

def Step.Passes (t : FileTree) (s : Settings) (e : Step) : Prop := ∀ p, ¬ e.Fails t s p

/-- The problem is that of a step before which all steps pass. -/
def FirstFailing (t : FileTree) (s : Settings) (es : List Step) (p : Problem) : Prop :=
  ∃ before e after, es = before ++ e :: after ∧ (∀ d ∈ before, d.Passes t s) ∧ e.Fails t s p

def Reports {β : Type} (t : FileTree) (s : Settings) (x : Except Problem β) (es : List Step) : Prop :=
  ∀ p, x = .error p ↔ FirstFailing t s es p

section
variable {t : FileTree} {s : Settings} {metric : Metric} {name : OsString} {p : Problem}

theorem not_firstFailing_nil : ¬ FirstFailing t s [] p := by
  intro h
  obtain ⟨before, e, after, hsplit, _⟩ := h
  simp at hsplit

theorem firstFailing_cons {e : Step} {es : List Step} :
    FirstFailing t s (e :: es) p ↔ e.Fails t s p ∨ e.Passes t s ∧ FirstFailing t s es p := by
  constructor
  · intro h
    obtain ⟨before, d, after, hsplit, hpass, hfail⟩ := h
    cases before with
    | nil =>
      obtain ⟨he, -⟩ := List.cons.inj hsplit
      exact .inl (he ▸ hfail)
    | cons b before =>
      obtain ⟨he, hes⟩ := List.cons.inj hsplit
      obtain ⟨hb, hbefore⟩ := List.forall_mem_cons.mp hpass
      exact .inr ⟨he ▸ hb, before, d, after, hes, hbefore, hfail⟩
  · intro h
    rcases h with hfail | ⟨he, before, d, after, hsplit, hpass, hfail⟩
    · exact ⟨[], e, es, rfl, by simp, hfail⟩
    · exact ⟨e :: before, d, after, by rw [hsplit]; rfl, List.forall_mem_cons.mpr ⟨he, hpass⟩,
        hfail⟩

theorem firstFailing_append {es ds : List Step} :
    FirstFailing t s (es ++ ds) p ↔
      FirstFailing t s es p ∨ (∀ e ∈ es, e.Passes t s) ∧ FirstFailing t s ds p := by
  induction es with
  | nil => simp [not_firstFailing_nil]
  | cons e es ih =>
    rw [List.cons_append, firstFailing_cons, firstFailing_cons, ih, List.forall_mem_cons]
    grind

theorem all_pass_iff {es : List Step} :
    (∀ e ∈ es, e.Passes t s) ↔ ∀ p, ¬ FirstFailing t s es p := by
  induction es with
  | nil => simp [not_firstFailing_nil]
  | cons e es ih =>
    simp only [List.forall_mem_cons, ih, firstFailing_cons, not_or, not_and]
    constructor
    · intro h p
      obtain ⟨he, hes⟩ := h
      exact ⟨he p, fun _ => hes p⟩
    · intro h
      have he : e.Passes t s := fun p => (h p).1
      exact ⟨he, fun p => (h p).2 he⟩

namespace Reports
variable {β γ : Type} {x : Except Problem β} {es ds : List Step}

theorem ok (b : β) : Reports t s (.ok b) [] := by
  intro p
  simp [not_firstFailing_nil]

theorem single {e : Step} (h : ∀ p, x = .error p ↔ e.Fails t s p) : Reports t s x [e] := by
  intro p
  rw [h, firstFailing_cons]
  simp [not_firstFailing_nil]

theorem passes (h : Reports t s x es) {b : β} (hb : x = .ok b) : ∀ e ∈ es, e.Passes t s := by
  refine all_pass_iff.mpr fun p hp => ?_
  have herror := (h p).mpr hp
  rw [hb] at herror
  contradiction

/-- One thing after the other takes the steps of both, and the second is not tried where the first
went wrong. -/
theorem bind {f : β → Except Problem γ} (hx : Reports t s x es)
    (hf : ∀ b, x = .ok b → Reports t s (f b) ds) : Reports t s (x.bind f) (es ++ ds) := by
  intro p
  rw [firstFailing_append, bind_eq_error_iff, hx p]
  refine or_congr_right ?_
  constructor
  · intro h
    obtain ⟨b, hb, hfb⟩ := h
    exact ⟨hx.passes hb, (hf b hb p).mp hfb⟩
  · intro h
    obtain ⟨hpass, hds⟩ := h
    cases hb : x with
    | error q => exact absurd ((hx q).mp hb) (all_pass_iff.mp hpass q)
    | ok b => exact ⟨b, rfl, (hf b hb p).mpr hds⟩

end Reports

theorem mem_visited {root : Path} : name ∈ visited t root ↔ Configures t root name := by
  unfold visited
  split
  · rename_i cause h
    simp [Configures, h]
  · rename_i entries h
    exact mem_configurationNames h

theorem ascending_visited (root : Path) : (visited t root).Pairwise (· < ·) := by
  unfold visited
  split
  · exact List.Pairwise.nil
  · rename_i entries h
    exact ascending_configurationNames h

theorem configurationDirs_eq_visited {root : Path} {dirs : List Path}
    (h : configurationDirs t root = .ok dirs) :
    dirs = (visited t root).map fun name => root / ⟨name⟩ := by
  obtain ⟨entries, hlist, hdirs⟩ := configurationDirs_eq_ok_iff.mp h
  simp only [visited, hlist, hdirs]

theorem reports_configurationDirs (metric : Metric) :
    Reports t s (configurationDirs t (s.root metric)) [.list metric] := by
  refine .single fun p => ?_
  unfold configurationDirs
  cases h : t.list (s.root metric) with
  | error cause => simp [Step.Fails, h, eq_comm]
  | ok entries => simp [Step.Fails, h]

theorem Label.text_of_ofText {text : String} {u : UnreadableLabel}
    (h : Label.ofText text = .error u) : u.text = text := by
  unfold Label.ofText at h
  split at h
  · contradiction
  · cases h
    rfl

theorem reports_labelOfSamples {samples : List (Sample Float)}
    (h : samplesIn t (samplesPath s metric name) = .ok samples) :
    Reports t s (labelOfSamples samples (samplesPath s metric name))
      [.sample metric name, .label metric name] := by
  intro p
  rw [firstFailing_cons, firstFailing_cons]
  cases samples with
  | nil => simp [labelOfSamples, Step.Passes, Step.Fails, h, not_firstFailing_nil, eq_comm]
  | cons first rest =>
    cases hlabel : Label.ofText first.label with
    | ok l =>
      simp [labelOfSamples, Step.Passes, Step.Fails, h, hlabel, not_firstFailing_nil,
        Except.mapError]
    | error u =>
      simp [labelOfSamples, Step.Passes, Step.Fails, h, hlabel, not_firstFailing_nil,
        Except.mapError, Label.text_of_ofText hlabel, eq_comm]

theorem reports_summarize {samples : List (Sample Float)}
    (h : samplesIn t (samplesPath s metric name) = .ok samples) (hne : samples ≠ []) :
    Reports t s (summarize samples metric (samplesPath s metric name)) [.summarize metric name] := by
  refine .single fun p => ?_
  rw [summarize_eq_error_iff hne, Step.Fails, h]
  simp only [Except.ok.injEq]

theorem reports_resultIn (metric : Metric) (name : OsString) :
    Reports t s (resultIn t s metric (s.root metric / ⟨name⟩)).result
      [.read metric name, .sample metric name, .label metric name, .summarize metric name] := by
  have hread : Reports t s (samplesIn t (samplesPath s metric name)) [.read metric name] :=
    .single fun p => Iff.rfl
  rw [result_resultIn]
  refine hread.bind fun samples hsamples => ?_
  refine (reports_labelOfSamples hsamples).bind fun l hl => ?_
  have hne : samples ≠ [] := by
    obtain ⟨first, hfirst, -⟩ := labelOfSamples_eq_ok_iff.mp hl
    rintro rfl
    simp at hfirst
  exact (reports_summarize hsamples hne).bind fun v _ => .ok (l, v)

theorem mem_before_iff {names before after : List OsString} (h : names.Pairwise (· < ·))
    (hsplit : names = before ++ name :: after) (other : OsString) :
    other ∈ before ↔ other ∈ names ∧ other < name := by
  rw [hsplit, List.pairwise_append, List.pairwise_cons] at h
  obtain ⟨-, ⟨hafter, -⟩, hbefore⟩ := h
  rw [hsplit, List.mem_append, List.mem_cons]
  constructor
  · intro hother
    exact ⟨.inl hother, hbefore other hother name List.mem_cons_self⟩
  · intro hmem
    obtain ⟨hother, hlt⟩ := hmem
    rcases hother with hother | hother | hother
    · exact hother
    · exact absurd (hother ▸ hlt) (OsString.lt_irrefl _)
    · exact absurd (OsString.lt_trans hlt (hafter other hother)) (OsString.lt_irrefl _)

theorem Gives.unique {l k : Label} (h : Gives t s metric name l) (h' : Gives t s metric name k) :
    l = k := by
  obtain ⟨samples, hl⟩ := h
  obtain ⟨others, hk⟩ := h'
  exact (hl.unique hk).2

/-- The builder within a pass: of this metric it has the labels that the folders behind it gave. -/
structure Gathered (t : FileTree) (s : Settings) (metric : Metric) (b : TableBuilder Float)
    (as : List (Arrival Float)) (done : List OsString) : Prop where
  reflects : Reflects b as
  reported : ∀ l, Reported as l metric ↔ ∃ name ∈ done, Gives t s metric name l

namespace Gathered
variable {b c : TableBuilder Float} {as : List (Arrival Float)} {done rest : List OsString} {l : Label}
  {v : Float}

theorem reports_add (h : Gathered t s metric b as done)
    (hsplit : visited t (s.root metric) = done ++ name :: rest) (hgives : Gives t s metric name l) :
    Reports t s (b.add l metric v (s.root metric / ⟨name⟩)) [.record metric name] := by
  have hdone (other : OsString) :
      other ∈ done ↔ Configures t (s.root metric) other ∧ other < name := by
    rw [mem_before_iff (ascending_visited _) hsplit, mem_visited]
  refine .single fun p => ?_
  rw [add_eq_error_iff h.reflects, h.reported, Step.Fails]
  constructor
  · intro hclash
    obtain ⟨⟨other, hmem, hother⟩, hp⟩ := hclash
    obtain ⟨hconfigures, hlt⟩ := (hdone other).mp hmem
    exact ⟨other, l, hconfigures, hlt, hother, hgives, hp⟩
  · intro hclash
    obtain ⟨other, k, hconfigures, hlt, hother, hname, hp⟩ := hclash
    rw [hname.unique hgives] at hother hp
    exact ⟨⟨other, (hdone other).mpr ⟨hconfigures, hlt⟩, hother⟩, hp⟩

theorem step (h : Gathered t s metric b as done) (hgives : Gives t s metric name l)
    (hadd : b.add l metric v (s.root metric / ⟨name⟩) = .ok c) :
    Gathered t s metric c (as ++ [⟨l, metric, v, s.root metric / ⟨name⟩⟩]) (done ++ [name]) := by
  refine ⟨?_, fun k => ?_⟩
  · have hstep := h.reflects.step ⟨l, metric, v, s.root metric / ⟨name⟩⟩
    rwa [add_eq_ok_iff.mp hadd] at hstep
  · have hname : Gives t s metric name k ↔ l = k :=
      ⟨fun hk => hgives.unique hk, fun hl => hl ▸ hgives⟩
    have hreported := h.reported k
    simp only [Reported] at hreported ⊢
    simp [or_and_right, exists_or, hreported, hname]

end Gathered

theorem reports_gatherDirs {b : TableBuilder Float} {as : List (Arrival Float)}
    {done rest : List OsString} (hsplit : visited t (s.root metric) = done ++ rest)
    (h : Gathered t s metric b as done) :
    Reports t s (gatherDirs t s metric b (rest.map fun name => s.root metric / ⟨name⟩)).result
      (rest.flatMap (folderSteps metric)) := by
  -- Over the folders still to visit; the invariant says which labels those behind have given.
  induction rest generalizing b as done with
  | nil => exact .ok b
  | cons name rest ih =>
    rw [List.map_cons, gatherDirs_cons, List.flatMap_cons]
    have hsteps : folderSteps metric name ++ rest.flatMap (folderSteps metric) =
        [.read metric name, .sample metric name, .label metric name, .summarize metric name] ++
          ([.record metric name] ++ rest.flatMap (folderSteps metric)) := rfl
    rw [hsteps]
    refine (reports_resultIn metric name).bind fun r hr => ?_
    have hgives : Gives t s metric name r.1 := by
      obtain ⟨samples, hm, -⟩ := resultIn_eq_ok_iff.mp hr
      exact ⟨samples, hm⟩
    refine (h.reports_add hsplit hgives).bind fun c hc => ?_
    exact ih (by simp [hsplit]) (h.step hgives hc)

theorem reports_gatherRoots {b : TableBuilder Float} {as : List (Arrival Float)}
    {metrics : List Metric} (hnodup : metrics.Nodup)
    (h : ∀ metric ∈ metrics, Gathered t s metric b as []) :
    Reports t s (gatherRoots t s b (metrics.map fun metric => (metric, s.root metric))).result
      (metrics.flatMap (rootSteps t s)) := by
  -- Over the passes still to make, which the builder has no metric of.
  induction metrics generalizing b as with
  | nil => exact .ok b
  | cons metric metrics ih =>
    obtain ⟨hmetric, hnodup⟩ := List.nodup_cons.mp hnodup
    obtain ⟨hfirst, hothers⟩ := List.forall_mem_cons.mp h
    rw [List.map_cons, gatherRoots_cons, List.flatMap_cons]
    have hsteps : rootSteps t s metric ++ metrics.flatMap (rootSteps t s) =
        [.list metric] ++ ((visited t (s.root metric)).flatMap (folderSteps metric) ++
          metrics.flatMap (rootSteps t s)) := rfl
    rw [hsteps]
    refine (reports_configurationDirs metric).bind fun dirs hdirs => ?_
    rw [configurationDirs_eq_visited hdirs]
    refine (reports_gatherDirs rfl hfirst).bind fun c hc => ?_
    obtain ⟨cs, -, hcs, hrecord⟩ := gatherDirs_eq_ok_iff.mp hc
    have hreflects : Reflects c (as ++ cs) := by
      have hrun := hfirst.reflects.run cs
      rwa [hrecord] at hrun
    have hapart (other : Metric) (hother : other ∈ metrics) (l : Label) : ¬ Reported cs l other := by
      intro hreported
      obtain ⟨a, ha, _, hm⟩ := hreported
      rw [(hcs a ha).metric_eq] at hm
      exact hmetric (hm ▸ hother)
    refine ih hnodup fun other hother => ⟨hreflects, fun l => ?_⟩
    rw [reported_append, or_iff_left (hapart other hother l)]
    exact (hothers other hother).reported l

/-- Labels that are found in all roots but one, and where all less are found in both, are the first
gap of the builder. -/
theorem firstGap_iff_found {rs ts : List (Arrival Float)} (hr : Visits t s .runtime rs)
    (ht : Visits t s .throughput ts) (l : Label) (missing : Metric) :
    FirstGap (rs ++ ts) l missing ↔ (∀ metric, Found t s metric l ↔ metric ≠ missing) ∧
      ∀ k, k < l → (Found t s .runtime k ↔ Found t s .throughput k) := by
  have hfound := reported_append_iff hr ht
  constructor
  · intro h
    refine ⟨fun metric => ⟨?_, fun hne => (hfound l metric).mp (h.only metric hne)⟩, ?_⟩
    · intro hmetric hmissing
      exact h.lacks ((hfound l missing).mpr (hmissing ▸ hmetric))
    · intro k hk
      have hall (m n : Metric) (hm : Found t s m k) : Found t s n k :=
        (hfound k n).mp (h.least k hk (occurs_iff.mpr ⟨m, (hfound k m).mpr hm⟩) n)
      exact ⟨hall .runtime .throughput, hall .throughput .runtime⟩
  · intro h
    obtain ⟨hl, hless⟩ := h
    have honly (metric : Metric) (hne : metric ≠ missing) : Reported (rs ++ ts) l metric :=
      (hfound l metric).mpr ((hl metric).mpr hne)
    refine ⟨?_, ?_, honly, ?_⟩
    · cases missing with
      | runtime => exact occurs_iff.mpr ⟨.throughput, honly .throughput (by decide)⟩
      | throughput => exact occurs_iff.mpr ⟨.runtime, honly .runtime (by decide)⟩
    · intro hmissing
      exact (hl missing).mp ((hfound l missing).mp hmissing) rfl
    · intro k hk hoccurs metric
      obtain ⟨other, hother⟩ := occurs_iff.mp hoccurs
      rw [hfound] at hother ⊢
      have hboth := hless k hk
      cases metric with
      | runtime => cases other with
        | runtime => exact hother
        | throughput => exact hboth.mpr hother
      | throughput => cases other with
        | runtime => exact hboth.mp hother
        | throughput => exact hother

theorem reports_toTable {rs ts : List (Arrival Float)} (hr : Visits t s .runtime rs)
    (ht : Visits t s .throughput ts) :
    Reports t s (toTable (ofArrivals (rs ++ ts))) [.join] := by
  refine .single fun p => ?_
  simp only [(reflects_ofArrivals (rs ++ ts)).toTable_eq_error_iff, firstGap_iff_found hr ht,
    and_assoc, Step.Fails]

end

/-- A collection fails with the problem of its first step that fails, where the folders of a root are
visited ascending by name. -/
theorem gatherTable_fails_at_first_step (t : FileTree) (s : Settings) :
    (∀ p, (gatherTable t s).result = .error p ↔ ∃ before e after,
      steps t s = before ++ e :: after ∧ (∀ d ∈ before, ∀ q, ¬ d.Fails t s q) ∧ e.Fails t s p) ∧
    ∀ metric, (visited t (s.root metric)).Pairwise (· < ·) ∧
      ∀ name, name ∈ visited t (s.root metric) ↔ Configures t (s.root metric) name := by
  refine ⟨?_, fun metric => ⟨ascending_visited _, fun name => mem_visited⟩⟩
  have hroots : Reports t s (gatherRoots t s .empty s.roots).result
      (Metric.all.flatMap (rootSteps t s)) := by
    have hempty (metric : Metric) : Gathered t s metric .empty [] [] :=
      ⟨reflects_empty, fun l => by simp [Reported]⟩
    exact reports_gatherRoots (by decide) fun metric _ => hempty metric
  have hresult : (gatherTable t s).result =
      (gatherRoots t s .empty s.roots).result.bind toTable := by
    simp only [gatherTable, Noted.result_bind, Noted.result_ofExcept]
  rw [hresult]
  refine hroots.bind fun b hb => ?_
  obtain ⟨rs, ts, hr, ht, -, hb⟩ := gatherRoots_eq_ok_iff.mp hb
  rw [hb]
  exact reports_toTable hr ht

end SweepReport
