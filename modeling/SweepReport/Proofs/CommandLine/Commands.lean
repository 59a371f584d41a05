import SweepReport.CommandLine
import SweepReport.Proofs.Report

/-! What the commands do with their settings. All of them find results under the two roots, in files of one
name; a plot goes to the renderer of the settings, and the other two are printed. Nothing is drawn or
printed where a command fails before. -/
namespace SweepReport

section
variable {t : FileTree} {s s' : Settings}

/-- Of the settings, collecting knows the roots and the name of the samples' file. -/
theorem gatherRoots_congr (h : s.samplesFile = s'.samplesFile) (b : TableBuilder Float)
    (roots : List (Metric × Path)) : gatherRoots t s b roots = gatherRoots t s' b roots := by
  have hresult (metric : Metric) (dir : Path) : resultIn t s metric dir = resultIn t s' metric dir := by
    rw [resultIn, resultIn, Settings.samplesFileIn, Settings.samplesFileIn, h]
  have hdirs (metric : Metric) (b : TableBuilder Float) (dirs : List Path) :
      gatherDirs t s metric b dirs = gatherDirs t s' metric b dirs := by
    induction dirs generalizing b with
    | nil => rfl
    | cons dir dirs ih => simp only [gatherDirs, hresult, ih]
  induction roots generalizing b with
  | nil => rfl
  | cons root roots ih => simp only [gatherRoots, hdirs, ih]

theorem inventoryRoots_congr (h : s.samplesFile = s'.samplesFile) (roots : List (Metric × Path)) :
    inventoryRoots t s roots = inventoryRoots t s' roots := by
  have hdir (metric : Metric) (dir : Path) : inventoryDir t s metric dir = inventoryDir t s' metric dir := by
    rw [inventoryDir, inventoryDir, Settings.samplesFileIn, Settings.samplesFileIn, h]
  have hdirs (metric : Metric) (dirs : List Path) :
      inventoryDirs t s metric dirs = inventoryDirs t s' metric dirs := by
    induction dirs with
    | nil => rfl
    | cons dir dirs ih => simp only [inventoryDirs, hdir, ih]
  induction roots with
  | nil => rfl
  | cons root roots ih => simp only [inventoryRoots, hdirs, ih]

end

/-- What the results under the roots come to, with samples in files of this name. -/
def collected (t : FileTree) (file : Path) (roots : List (Metric × Path)) :
    Except Problem (ResultTable Float) :=
  (gatherRoots t { samplesFile := file } .empty roots).result.bind TableBuilder.toTable

def inventoried (t : FileTree) (file : Path) (roots : List (Metric × Path)) :
    Except Problem (List Listed) :=
  (inventoryRoots t { samplesFile := file } roots).result

/-- What a command leaves of a machine and how it ends, if it finds results under the roots and has a
figure drawn by the renderer. -/
inductive Performs (launch : Launcher) (s : Settings) (roots : List (Metric × Path)) (r : ScriptRenderer)
    (m : Machine) : Action → Machine → Except CommandFault Unit → Prop where
  | refused {action : Action} :
      action ≠ .list → isStep s.curveStep = false →
      Performs launch s roots r m action m (.error (.report (.badStep s.curveStep)))
  | uncollected {action : Action} {p : Problem} :
      action ≠ .list → isStep s.curveStep = true → collected m.tree s.samplesFile roots = .error p →
      Performs launch s roots r m action m (.error (.report (.collecting s.groupDir p)))
  | uncomposed {table : ResultTable Float} {e : FigureFault} :
      isStep s.curveStep = true → collected m.tree s.samplesFile roots = .ok table →
      Figure.ofTable table s.fitDegree.toNat s.curveStep = .error e →
      Performs launch s roots r m .plot m (.error (.report (.composing e)))
  | drawn {table : ResultTable Float} {f : Figure Float} :
      isStep s.curveStep = true → collected m.tree s.samplesFile roots = .ok table →
      Figure.ofTable table s.fitDegree.toNat s.curveStep = .ok f →
      Performs launch s roots r m .plot (r.render launch f m).1
        ((r.render launch f m).2.result.mapError fun cause => .report (.drawing cause))
  | printed {table : ResultTable Float} :
      isStep s.curveStep = true → collected m.tree s.samplesFile roots = .ok table →
      Performs launch s roots r m .print (m.print (tableLines table)) (.ok ())
  | unlisted {p : Problem} :
      inventoried m.tree s.samplesFile roots = .error p →
      Performs launch s roots r m .list m (.error (.results p))
  | listed {found : List Listed} :
      inventoried m.tree s.samplesFile roots = .ok found →
      Performs launch s roots r m .list (m.print (found.map Listed.line)) (.ok ())

section
variable {t : FileTree} {s : Settings}

theorem collected_roots : collected t s.samplesFile s.roots = (gatherTable t s).result := by
  have hfile : ({ samplesFile := s.samplesFile } : Settings).samplesFile = s.samplesFile := rfl
  rw [collected, gatherRoots_congr hfile, gatherTable, Noted.result_bind]
  rfl

theorem inventoried_roots : inventoried t s.samplesFile s.roots = (inventory t s).result := by
  have hfile : ({ samplesFile := s.samplesFile } : Settings).samplesFile = s.samplesFile := rfl
  rw [inventoried, inventoryRoots_congr hfile, inventory]

theorem result_reportTable_of_badStep {ε : Type} (h : isStep s.curveStep = false) :
    (reportTable t s : Noted (Failure ε) _).result = .error (.badStep s.curveStep) := by
  simp only [reportTable, checkStep, h, Bool.false_eq_true, if_false, Noted.result_bind,
    Noted.result_ofExcept]
  rfl

/-- The table that a command reports on, if the step and the results allow it. -/
theorem performs_report {m : Machine} {action : Action} (haction : action ≠ .list) :
    (∃ e, (reportTable m.tree s).result = .error e ∧ ∀ launch r,
      Performs launch s s.roots r m action m (.error (.report e))) ∨
    ∃ table, (reportTable m.tree s : Noted (Failure RenderFault) _).result = .ok table ∧
      isStep s.curveStep = true ∧ collected m.tree s.samplesFile s.roots = .ok table := by
  cases hstep : isStep s.curveStep with
  | false => exact .inl ⟨_, result_reportTable_of_badStep hstep, fun _ _ => .refused haction hstep⟩
  | true =>
    rw [result_reportTable hstep]
    cases hgather : (gatherTable m.tree s).result with
    | error p =>
      exact .inl ⟨_, rfl, fun _ _ => .uncollected haction hstep (collected_roots.trans hgather)⟩
    | ok table => exact .inr ⟨table, rfl, rfl, collected_roots.trans hgather⟩

theorem printing_map {α ε : Type} (m : Machine) (x : Noted ε α) (fault : ε → CommandFault)
    (lines : α → List String) :
    ((printing m (lines <$> x.mapError fault)).1, (printing m (lines <$> x.mapError fault)).2.result) =
      match x.result with
      | .error e => (m, .error (fault e))
      | .ok a => (m.print (lines a), .ok ()) := by
  obtain ⟨result, events⟩ := x
  cases result <;> rfl

end

/-- Every command works on the roots of its settings, and a plot with their renderer. -/
theorem performs_perform (launch : Launcher) (action : Action) (s : Settings) (m : Machine) :
    Performs launch s s.roots (ScriptRenderer.ofSettings s) m action (perform launch action s m).1
      (perform launch action s m).2.result := by
  cases action with
  | plot =>
    obtain ⟨e, hreport, hperforms⟩ | ⟨table, hreport, hstep, hcollected⟩ :=
      performs_report (m := m) (s := s) (show Action.plot ≠ .list by decide)
    · rw [perform, drawReport_of_error _ m hreport]
      exact hperforms _ _
    · rw [perform, drawReport_of_ok _ m hreport]
      cases hfigure : Figure.ofTable table s.fitDegree.toNat s.curveStep with
      | error e =>
        rw [drawTable_of_error _ m hfigure]
        exact .uncomposed hstep hcollected hfigure
      | ok f =>
        obtain ⟨events, hdraw⟩ := exists_drawTable hfigure
        rw [hdraw]
        have hnested (x : Except RenderFault Unit) : (x.mapError Failure.drawing).mapError .report =
            x.mapError fun cause => CommandFault.report (.drawing cause) := by
          cases x <;> rfl
        have hdrawn : Performs launch s s.roots (.ofSettings s) m .plot _ _ :=
          .drawn hstep hcollected hfigure
        rw [← hnested] at hdrawn
        exact hdrawn
  | list =>
    have hprinted := printing_map m (inventory m.tree s) .results fun found => found.map Listed.line
    cases hlist : (inventory m.tree s).result with
    | error p =>
      rw [hlist, Prod.mk.injEq] at hprinted
      rw [perform, hprinted.1, hprinted.2]
      exact .unlisted (inventoried_roots.trans hlist)
    | ok found =>
      rw [hlist, Prod.mk.injEq] at hprinted
      rw [perform, hprinted.1, hprinted.2]
      exact .listed (inventoried_roots.trans hlist)
  | print =>
    have hprinted := printing_map m (reportTable m.tree s) .report tableLines
    obtain ⟨e, hreport, hperforms⟩ | ⟨table, hreport, hstep, hcollected⟩ :=
      performs_report (m := m) (s := s) (show Action.print ≠ .list by decide)
    · rw [hreport, Prod.mk.injEq] at hprinted
      rw [perform, hprinted.1, hprinted.2]
      exact hperforms _ _
    · rw [hreport, Prod.mk.injEq] at hprinted
      rw [perform, hprinted.1, hprinted.2]
      exact .printed hstep hcollected

end SweepReport
