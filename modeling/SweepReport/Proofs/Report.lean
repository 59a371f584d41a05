import SweepReport.Proofs.Collection.Join
import SweepReport.Proofs.Figure.Ending
import SweepReport.ScriptRenderer

/-! What a report draws. All results are checked before anything is drawn: a backend gets the figure of
the whole table or nothing, and where it gets nothing the run leaves no trace. -/
namespace SweepReport
variable {σ ε : Type}

/-- The backend that keeps the figures it is given beside its state. -/
def Backend.recorded (draw : Backend σ ε) : Backend (σ × List (Figure Float)) ε := fun f state =>
  let (next, drawn) := draw f state.1
  ((next, state.2 ++ [f]), drawn)

/-- The figures that a report gives its backend, in turn. -/
def figuresDrawn (t : FileTree) (s : Settings) (draw : Backend σ ε) (state : σ) :
    List (Figure Float) :=
  (drawReport t s (Backend.recorded draw) (state, [])).1.2

/-- The figure is that of the table the results give, which has some configuration. -/
def Depicts (t : FileTree) (s : Settings) (f : Figure Float) : Prop :=
  ∃ table, (gatherTable t s).result = .ok table ∧ table.entries ≠ [] ∧
    Figure.ofTable table s.fitDegree.toNat s.curveStep = .ok f

/-- The failure says why nothing is drawn: there is a problem with the results, there are none, or a
trend line never comes to its end, and then neither does the report. -/
def Explains (t : FileTree) (s : Settings) (failure : Failure ε) : Prop :=
  (∃ p, (gatherTable t s).result = .error p ∧ failure = .collecting s.groupDir p) ∨
    ∃ table, (gatherTable t s).result = .ok table ∧
      (table.entries = [] ∧ failure = .composing .empty ∨
        table.entries ≠ [] ∧ ¬ table.Reached s.fitDegree.toNat s.curveStep ∧
          failure = .composing .endless)

/-- What a report does with its backend: it is called at most once, on the figure of the results, and
has the last word; without a call the state stays as it is. There is a call where the results are in order
and the steps lead to the ends of their trend lines. -/
structure HandsOver (t : FileTree) (s : Settings) (draw : Backend σ ε) (state : σ) : Prop where
  recorded : drawReport t s draw state =
    ((drawReport t s (Backend.recorded draw) (state, [])).1.1,
      (drawReport t s (Backend.recorded draw) (state, [])).2)
  once : (figuresDrawn t s draw state).length ≤ 1
  called : figuresDrawn t s draw state ≠ [] ↔
    ∃ table, (gatherTable t s).result = .ok table ∧ table.entries ≠ [] ∧
      table.Reached s.fitDegree.toNat s.curveStep
  figure : ∀ f, f ∈ figuresDrawn t s draw state ↔ Depicts t s f
  succeeds : (drawReport t s draw state).2.result = .ok () ↔
    ∃ f ∈ figuresDrawn t s draw state, (draw f state).2.result = .ok ()
  refuses : figuresDrawn t s draw state = [] → (drawReport t s draw state).1 = state ∧
    ∃ failure, (drawReport t s draw state).2.result = .error failure ∧ Explains t s failure

section
variable {t : FileTree} {s : Settings}

theorem Depicts.unique {f g : Figure Float} (hf : Depicts t s f) (hg : Depicts t s g) : f = g := by
  obtain ⟨table, htable, -, hfigure⟩ := hf
  obtain ⟨other, hother, -, hfigure'⟩ := hg
  rw [htable, Except.ok.injEq] at hother
  rw [← hother, hfigure, Except.ok.injEq] at hfigure'
  exact hfigure'

theorem result_reportTable (h : isStep s.curveStep = true) :
    (reportTable t s : Noted (Failure ε) _).result =
      (gatherTable t s).result.mapError (.collecting s.groupDir) := by
  simp only [reportTable, checkStep, h, if_true, Noted.result_bind, Noted.result_ofExcept,
    Noted.result_note, Noted.result_mapError]
  rfl

theorem drawReport_of_error {e : Failure ε} (draw : Backend σ ε) (state : σ)
    (h : (reportTable t s).result = .error e) :
    drawReport t s draw state = (state, ⟨.error e, (reportTable t s : Noted (Failure ε) _).events⟩) := by
  unfold drawReport
  cases htable : (reportTable t s : Noted (Failure ε) _) with
  | mk result events =>
    rw [htable] at h
    cases h
    rfl

theorem drawReport_of_ok {table : ResultTable Float} (draw : Backend σ ε) (state : σ)
    (h : (reportTable t s : Noted (Failure ε) _).result = .ok table) :
    drawReport t s draw state =
      ((drawTable table s.fitDegree.toNat s.curveStep draw state).1,
        ⟨(drawTable table s.fitDegree.toNat s.curveStep draw state).2.result,
          (reportTable t s : Noted (Failure ε) _).events ++
            (drawTable table s.fitDegree.toNat s.curveStep draw state).2.events⟩) := by
  unfold drawReport
  cases htable : (reportTable t s : Noted (Failure ε) _) with
  | mk result events =>
    rw [htable] at h
    cases h
    rfl

theorem drawTable_of_error {table : ResultTable Float} {degree : Nat} {step : Float} {e : FigureFault}
    (draw : Backend σ ε) (state : σ) (h : Figure.ofTable table degree step = .error e) :
    drawTable table degree step draw state = (state, .ofExcept (.error (.composing e))) := by
  rw [Figure.ofTable] at h
  unfold drawTable
  cases hk : sketch table degree step with
  | error e' =>
    rw [hk] at h
    cases h
    rfl
  | ok k =>
    rw [hk] at h
    cases h

/-- What is said before the drawing has nothing to do with the backend. -/
theorem exists_drawTable {table : ResultTable Float} {degree : Nat} {step : Float}
    {f : Figure Float} (h : Figure.ofTable table degree step = .ok f) :
    ∃ events, ∀ (σ ε : Type) (draw : Backend σ ε) (state : σ),
      drawTable table degree step draw state =
        ((draw f state).1,
          ⟨(draw f state).2.result.mapError .drawing, events ++ (draw f state).2.events⟩) := by
  obtain ⟨k, hk, hf⟩ := map_eq_ok_iff.mp h
  refine ⟨composeEvents table k, fun σ ε draw state => ?_⟩
  rw [drawTable, hk, ← hf]

/-- Without a figure the table is empty, or some of its trend lines never come to an end. -/
theorem explains_of_error {table : ResultTable Float} {e : FigureFault}
    (hgather : (gatherTable t s).result = .ok table)
    (h : Figure.ofTable table s.fitDegree.toNat s.curveStep = .error e) :
    Explains t s (.composing e : Failure ε) := by
  refine .inr ⟨table, hgather, ?_⟩
  obtain ⟨hempty, h'⟩ | ⟨hne, hendless, h'⟩ | ⟨-, -, f, -, h'⟩ :=
    ofTable_cases table s.fitDegree.toNat s.curveStep
  · rw [h', Except.error.injEq] at h
    exact .inl ⟨hempty, h ▸ rfl⟩
  · rw [h', Except.error.injEq] at h
    exact .inr ⟨hne, fun hreached => hendless (sampled_iff_reached.mpr hreached), h ▸ rfl⟩
  · rw [h'] at h
    contradiction

/-- Whether a figure is handed over, and what is said before, is settled without the backend. -/
theorem drawReport_cases (h : isStep s.curveStep = true) :
    (∃ f events, Depicts t s f ∧ ∀ (σ : Type) (draw : Backend σ ε) (state : σ),
      drawReport t s draw state = ((draw f state).1,
        ⟨(draw f state).2.result.mapError .drawing, events ++ (draw f state).2.events⟩)) ∨
    ((∀ f, ¬ Depicts t s f) ∧ ∃ (failure : Failure ε) (events : List Event), Explains t s failure ∧
      ∀ (σ : Type) (draw : Backend σ ε) (state : σ),
        drawReport t s draw state = (state, ⟨.error failure, events⟩)) := by
  have hreport := result_reportTable (ε := ε) (t := t) h
  cases hgather : (gatherTable t s).result with
  | error p =>
    rw [hgather] at hreport
    refine .inr ⟨fun f hf => ?_, .collecting s.groupDir p, _, .inl ⟨p, hgather, rfl⟩,
      fun σ draw state => drawReport_of_error draw state hreport⟩
    obtain ⟨table, htable, -⟩ := hf
    rw [hgather] at htable
    contradiction
  | ok table =>
    rw [hgather] at hreport
    cases hfigure : Figure.ofTable table s.fitDegree.toNat s.curveStep with
    | error e =>
      refine .inr ⟨fun f hf => ?_, .composing e, (reportTable t s : Noted (Failure ε) _).events,
        explains_of_error hgather hfigure, fun σ draw state => ?_⟩
      · obtain ⟨other, hother, -, hfigure'⟩ := hf
        rw [hgather, Except.ok.injEq] at hother
        rw [← hother, hfigure] at hfigure'
        contradiction
      · rw [drawReport_of_ok draw state hreport, drawTable_of_error draw state hfigure]
        simp only [Noted.ofExcept, List.append_nil]
    | ok f =>
      have hne : table.entries ≠ [] := (exists_figure_iff.mp ⟨f, hfigure⟩).1
      obtain ⟨events, hdraw⟩ := exists_drawTable hfigure
      refine .inl ⟨f, (reportTable t s : Noted (Failure ε) _).events ++ events,
        ⟨table, hgather, hne, hfigure⟩, fun σ draw state => ?_⟩
      rw [drawReport_of_ok draw state hreport, hdraw, List.append_assoc]

theorem exists_depicts_iff : (∃ f, Depicts t s f) ↔
    ∃ table, (gatherTable t s).result = .ok table ∧ table.entries ≠ [] ∧
      table.Reached s.fitDegree.toNat s.curveStep := by
  constructor
  · rintro ⟨f, table, htable, hne, hfigure⟩
    exact ⟨table, htable, hne, sampled_iff_reached.mp (exists_figure_iff.mp ⟨f, hfigure⟩).2⟩
  · rintro ⟨table, htable, hne, hreached⟩
    obtain ⟨f, hfigure⟩ := exists_figure_iff.mpr ⟨hne, sampled_iff_reached.mpr hreached⟩
    exact ⟨f, table, htable, hne, hfigure⟩

theorem handsOver (h : isStep s.curveStep = true) (draw : Backend σ ε) (state : σ) :
    HandsOver t s draw state := by
  cases drawReport_cases (ε := ε) (t := t) h with
  | inl hdrawn =>
    obtain ⟨f, events, hf, hrun⟩ := hdrawn
    have hfigures : figuresDrawn t s draw state = [f] := by
      rw [figuresDrawn, hrun]
      rfl
    refine ⟨by rw [hrun, hrun]; rfl, by simp [hfigures], ?_, fun g => ?_, ?_, ?_⟩
    · rw [← exists_depicts_iff, hfigures]
      exact iff_of_true (List.cons_ne_nil _ _) ⟨f, hf⟩
    · rw [hfigures, List.mem_singleton]
      constructor
      · intro hg
        exact hg ▸ hf
      · intro hg
        exact hg.unique hf
    · simp only [hfigures, hrun, List.mem_singleton, exists_eq_left, mapError_eq_ok_iff]
    · simp [hfigures]
  | inr hrefused =>
    obtain ⟨hno, failure, events, hwhy, hrun⟩ := hrefused
    have hfigures : figuresDrawn t s draw state = [] := by
      rw [figuresDrawn, hrun]
    refine ⟨by rw [hrun, hrun], by simp [hfigures], ?_, fun g => ?_, ?_, fun _ => ?_⟩
    · simp [← exists_depicts_iff, hfigures, hno]
    · simp [hfigures, hno]
    · simp [hfigures, hrun]
    · rw [hrun]
      exact ⟨rfl, failure, rfl, hwhy⟩

end

/-- With any backend a report draws the figure of results that were all checked, or draws nothing and
leaves everything as it is. When the script renderer gets nothing, no file or folder is touched, and
what its launcher would have done with the script never comes into it. -/
theorem report_draws_checked_results (t : FileTree) (s : Settings) (h : isStep s.curveStep = true) :
    (∀ (σ ε : Type) (draw : Backend σ ε) (state : σ), HandsOver t s draw state) ∧
    ∀ (r : ScriptRenderer) (launch : Launcher) (m : Machine),
      figuresDrawn t s (r.render launch) m = [] →
        ∃ failure events, ∀ other : Launcher,
          drawReport t s (r.render other) m = (m, ⟨.error failure, events⟩) := by
  refine ⟨fun σ ε draw state => handsOver h draw state, fun r launch m hnone => ?_⟩
  cases drawReport_cases (ε := RenderFault) (t := t) h with
  | inl hdrawn =>
    obtain ⟨f, events, hf, -⟩ := hdrawn
    have hmem := ((handsOver h (r.render launch) m).figure f).mpr hf
    simp [hnone] at hmem
  | inr hrefused =>
    obtain ⟨-, failure, events, -, hrun⟩ := hrefused
    exact ⟨failure, events, fun other => hrun _ _ m⟩

def blankBackend : Backend Unit Unit := fun _ state => (state, .ofExcept (.ok ()))

theorem pair_is_drawn :
    isStep pairSettings.curveStep = true ∧
    (figuresDrawn pairTree pairSettings blankBackend ()).length = 1 ∧
    (drawReport pairTree pairSettings blankBackend ()).2.result = .ok () ∧
    ∀ (r : ScriptRenderer) (launch : Launcher) (m : Machine), ∃ failure events,
      drawReport .start pairSettings (r.render launch) m = (m, ⟨.error failure, events⟩) := by
  have hstep : isStep pairSettings.curveStep = true := by decide +kernel
  have hdrawn := (report_draws_checked_results pairTree pairSettings hstep).1 _ _ blankBackend ()
  obtain ⟨table, htable, hlabels⟩ := pair_gathered
  have hne : table.entries ≠ [] := by
    intro hempty
    simp [LabelMap.labels, hempty] at hlabels
  have hreached : table.Reached pairSettings.fitDegree.toNat pairSettings.curveStep :=
    reached_of_le (by rw [hlabels]; decide +kernel)
  have hcalled := hdrawn.called.mpr ⟨table, htable, hne, hreached⟩
  obtain ⟨f, hf⟩ := List.exists_mem_of_ne_nil _ hcalled
  refine ⟨hstep, ?_, hdrawn.succeeds.mpr ⟨f, hf, rfl⟩, fun r launch m => ?_⟩
  · have honce := hdrawn.once
    have hpos := List.length_pos_iff.mpr hcalled
    omega
  · obtain ⟨hall, hrefuses⟩ := report_draws_checked_results .start pairSettings hstep
    have hnone : figuresDrawn .start pairSettings (r.render launch) m = [] := by
      by_contra hne
      obtain ⟨table, htable, -⟩ := (hall _ _ (r.render launch) m).called.mp hne
      exact absurd (exists_eq_ok_iff.mp ⟨table, htable⟩) (by decide +kernel)
    obtain ⟨failure, events, hrun⟩ := hrefuses r launch m hnone
    exact ⟨failure, events, hrun launch⟩

def rangeTree : FileTree :=
  let samples (batch : String) : Entry := .file
    ("value,throughput_num,sample_measured_value,iteration_count\n\"1, " ++ batch ++
      " files\",1,2000000,1\n").toUTF8
  ⟨[(.ofNames ["r"], .folder), (.ofNames ["g", "r"], .folder), (.ofNames ["t", "g", "r"], .folder),
    (.ofNames ["a", "t", "g", "r"], .folder), (.ofNames ["s", "a", "t", "g", "r"], samples "8"),
    (.ofNames ["b", "t", "g", "r"], .folder), (.ofNames ["s", "b", "t", "g", "r"], samples "16"),
    (.ofNames ["p", "g", "r"], .folder), (.ofNames ["a", "p", "g", "r"], .folder),
    (.ofNames ["s", "a", "p", "g", "r"], samples "8"), (.ofNames ["b", "p", "g", "r"], .folder),
    (.ofNames ["s", "b", "p", "g", "r"], samples "16")], by decide, .top⟩

/-- The pair's settings with the least step above zero. -/
def leastStep : Settings := { pairSettings with curveStep := Float.ofBits 1 }

theorem dirs_rangeTree (metric : Metric) : configurationDirs rangeTree (leastStep.root metric) =
    .ok [leastStep.root metric / ⟨"a"⟩, leastStep.root metric / ⟨"b"⟩] := by
  have hlist : (rangeTree.list (leastStep.root metric)).toOption.map (fun entries =>
      (entries.map Prod.fst).filter (isConfiguration rangeTree (leastStep.root metric))) =
      some [("a" : OsString), "b"] := by
    cases metric <;> decide +kernel
  obtain ⟨entries, hentries, hnames⟩ := Option.map_eq_some_iff.mp hlist
  rw [configurationDirs, toOption_eq_some_iff.mp hentries]
  dsimp only
  rw [configurationNames, hnames, List.mergeSort_of_pairwise (by decide +kernel)]
  rfl

/-- Both batch sizes are in the table, and a trend goes through them. -/
theorem range_gathered : ∃ table w, (gatherTable rangeTree leastStep).result = .ok table ∧
    w ∈ Sweep.ofTable table .runtime ∧ w.points.map Prod.fst = [8, 16] ∧
    Trend.fit? w.xs w.ys leastStep.fitDegree.toNat ≠ none := by
  have hgather : (gatherTable rangeTree leastStep).result.toOption.map (fun table =>
      (Sweep.ofTable table .runtime).map fun w =>
        (w.points.map Prod.fst, (Trend.fit? w.xs w.ys leastStep.fitDegree.toNat).isSome)) =
      some [([8, 16], true)] := by
    -- The sorting of the folders does not compute in the kernel, all else does.
    simp only [gatherTable, Settings.roots, Metric.all, List.map_cons, List.map_nil, gatherRoots,
      dirs_rangeTree, Noted.result_bind, Noted.result_ofExcept, Noted.result_note, Noted.result_pure]
    decide +kernel
  obtain ⟨table, htable, hsweeps⟩ := Option.map_eq_some_iff.mp hgather
  obtain ⟨w, hw, hsweep⟩ := List.map_eq_singleton_iff.mp hsweeps
  obtain ⟨hbatches, hfit⟩ := Prod.mk.inj hsweep
  exact ⟨table, w, toOption_eq_some_iff.mp htable, hw ▸ List.mem_singleton_self w, hbatches,
    Option.isSome_iff_ne_none.mp hfit⟩

/-- The least step above zero is accepted, the results are in order, and yet no figure is handed over: their
trend line never comes to its end. -/
theorem range_never_drawn :
    isStep leastStep.curveStep = true ∧
    (∃ table, (gatherTable rangeTree leastStep).result = .ok table ∧ table.entries ≠ []) ∧
    figuresDrawn rangeTree leastStep blankBackend () = [] ∧
    (drawReport rangeTree leastStep blankBackend ()).2.result = .error (.composing .endless) := by
  have hstep : isStep leastStep.curveStep = true := by decide +kernel
  obtain ⟨table, w, htable, hw, hbatches, hfit⟩ := range_gathered
  have hne : table.entries ≠ [] := by
    intro hempty
    simp [Sweep.ofTable, ResultTable.values, hempty, Sweep.ofValues] at hw
  have hendless : ¬ table.Reached leastStep.fitDegree.toNat leastStep.curveStep := by
    intro h
    have hspans : w.Spans 8 16 := ⟨by simp [hbatches], by simp [hbatches], by simp [hbatches]⟩
    exact absurd (h hstep .runtime w hw hfit 8 16 hspans) (by decide +kernel)
  have hdrawn : HandsOver rangeTree leastStep blankBackend () := handsOver hstep blankBackend ()
  have hnone : figuresDrawn rangeTree leastStep blankBackend () = [] := by
    by_contra hcalled
    obtain ⟨other, hother, -, hreached⟩ := hdrawn.called.mp hcalled
    rw [htable, Except.ok.injEq] at hother
    exact hendless (hother ▸ hreached)
  obtain ⟨-, failure, hfailure, hwhy⟩ := hdrawn.refuses hnone
  refine ⟨hstep, ⟨table, htable, hne⟩, hnone, ?_⟩
  obtain ⟨p, hp, -⟩ | ⟨other, hother, ⟨hempty, -⟩ | ⟨-, -, rfl⟩⟩ := hwhy
  · rw [htable] at hp
    contradiction
  · rw [htable, Except.ok.injEq] at hother
    exact absurd (hother ▸ hempty) hne
  · exact hfailure

end SweepReport
