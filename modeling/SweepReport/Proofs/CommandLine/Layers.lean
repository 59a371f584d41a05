import SweepReport.Proofs.CommandLine.Commands
import SweepReport.Proofs.CommandLine.Lines
import SweepReport.Proofs.Settings.Fields

/-! The settings that a command runs with, in three layers: the defaults, a settings file over them, and
the options of the arguments over that. -/
namespace SweepReport
open Settings (Field)

/-- The file that settings are read from: the one that is given, or else the usual one if it is
there. -/
inductive Chosen (t : FileTree) (os : List (Flag × OsString)) : Option Path → Prop where
  | given {p : Path} : (Flag.config, p.raw) ∈ os → Chosen t os (some p)
  | usual : (∀ v, (Flag.config, v) ∉ os) → t.has usualConfig → Chosen t os (some usualConfig)
  | none : (∀ v, (Flag.config, v) ∉ os) → t.has usualConfig = false → Chosen t os none

/-- What comes of a file: settings, or the fault of reading or of parsing it. Without a file the
defaults do. -/
inductive Loads (t : FileTree) : Option Path → Except LoadFault Settings → Prop where
  | defaults : Loads t none (.ok {})
  | unreadable {p : Path} {cause : IoFault} :
      t.readText p = .error cause → Loads t (some p) (.error (.read p cause))
  | malformed {p : Path} {text : String} {cause : Yaml.Fault} :
      t.readText p = .ok text → Settings.ofYaml text = .error cause →
      Loads t (some p) (.error (.parse p cause))
  | decoded {p : Path} {text : String} {s : Settings} :
      t.readText p = .ok text → Settings.ofYaml text = .ok s → Loads t (some p) (.ok s)

/-- What options give comes in the stead of what was before, which stays if they give nothing. -/
structure Replaced {α : Type} (gives : α → Prop) (before after : α) : Prop where
  given : ∀ a, gives a → after = a
  kept : (∀ a, ¬gives a) → after = before

def givenFields : List Field := [.resultsDir, .group, .output]

/-- The settings `s` are `base` but for what options give, the place of the figure only to a plot. -/
structure Layered (os : List (Flag × OsString)) (action : Action) (base s : Settings) : Prop where
  resultsDir : Replaced (fun p : Path => (Flag.resultsDir, p.raw) ∈ os) base.resultsDir s.resultsDir
  group : Replaced (fun name => (Flag.group, OsString.ofText name) ∈ os) base.group s.group
  output : Replaced (fun p? => action = .plot ∧ ∃ p : Path, p? = some p ∧ (Flag.output, p.raw) ∈ os)
    base.output s.output
  others : ∀ f, f ∉ givenFields → s.value f = base.value f

def directivesOf (os : List (Flag × OsString)) : List String := (valuesOf .log os).map OsString.lossy

/-- The log of a run is there and its directives are in order, and this came of the settings file. -/
structure Prepared (level : Threshold) (os : List (Flag × OsString)) (m ready : Machine)
    (base : Except LoadFault Settings) : Prop where
  log : startLog m = .ok ready
  directives : ∃ ds, filterDirectives level (directivesOf os) = .ok ds
  settings : ∃ file, Chosen ready.tree os file ∧ Loads ready.tree file base

/-- The roots of results and the renderer that layered settings come to. -/
structure Equipped (base s : Settings) (roots : List (Metric × Path)) (r : ScriptRenderer) : Prop where
  roots : roots =
    [(.runtime, s.resultsDir / ⟨s.group⟩ / ⟨base.runtimeDir⟩),
     (.throughput, s.resultsDir / ⟨s.group⟩ / ⟨base.throughputDir⟩)]
  renderer : r = ⟨base.interpreter, base.plotScript, base.plotDataDir, s.output⟩

/-- What the command of a run does: it runs with layered settings over the base, on their roots and with
their renderer. -/
def Ran (launch : Launcher) (level : Threshold) (os : List (Flag × OsString)) (action : Action)
    (m after : Machine) (result : Except CommandFault Unit) : Prop :=
  ∃ ready base s roots r,
    Prepared level os m ready (.ok base) ∧ Layered os action base s ∧ Equipped base s roots r ∧
      Performs launch s roots r ready action after result

/-- How a run may end. A run stops where the log, its directives or the settings fail, and then no
command has done anything; else it ends as its command does, if that comes to an end. -/
inductive Ends (launch : Launcher) (level : Threshold) (os : List (Flag × OsString)) (action : Action)
    (m : Machine) : Option Outcome → Prop where
  | unlogged {cause : IoFault} :
      startLog m = .error cause → Ends launch level os action m (some ⟨brokenOff, m, none, []⟩)
  | misdirected {ready : Machine} {e : DirectiveFault} :
      startLog m = .ok ready → filterDirectives level (directivesOf os) = .error e →
      Ends launch level os action m (some ⟨failureCode e.chain?, ready, e.chain?, []⟩)
  | unset {ready : Machine} {e : LoadFault} {events : List Event} :
      Prepared level os m ready (.error e) →
      Ends launch level os action m (some ⟨failureCode e.chain?, ready, e.chain?, events⟩)
  | failed {after : Machine} {e : CommandFault} {events : List Event} :
      Ran launch level os action m after (.error e) → e ≠ .report (.composing .endless) →
      Ends launch level os action m (some ⟨failureCode e.chain?, after, e.chain?, events⟩)
  | endless {after : Machine} :
      Ran launch level os action m after (.error (.report (.composing .endless))) →
      Ends launch level os action m none
  | done {after : Machine} {events : List Event} :
      Ran launch level os action m after (.ok ()) →
      Ends launch level os action m (some ⟨0, after, none, events⟩)

theorem loads_settingsIn (t : FileTree) (p : Path) : Loads t (some p) (settingsIn t p) := by
  unfold settingsIn
  split
  · rename_i cause hread
    exact .unreadable hread
  · rename_i text hread
    cases hyaml : Settings.ofYaml text with
    | error cause => exact .malformed hread hyaml
    | ok s => exact .decoded hread hyaml

section
variable {t : FileTree} {os : List (Flag × OsString)} {i : Invocation}

theorem replaced_getD {α : Type} {x : Option α} {gives : α → Prop} (h : ∀ a, x = some a ↔ gives a)
    (before : α) : Replaced gives before (x.getD before) where
  given a ha := by rw [(h a).mpr ha, Option.getD_some]
  kept hnone := by
    cases x with
    | none => rfl
    | some a => exact absurd ((h a).mp rfl) (hnone a)

theorem path_eq_some_iff {x : Option Path} {f : Flag} (h : x.toList.map Path.raw = valuesOf f os)
    (p : Path) : x = some p ↔ (f, p.raw) ∈ os := by
  rw [← mem_valuesOf_iff, ← h, List.mem_map]
  constructor
  · rintro rfl
    exact ⟨p, Option.mem_toList.mpr rfl, rfl⟩
  · rintro ⟨q, hq, htext⟩
    rw [Option.mem_toList.mp hq]
    exact congrArg (some ∘ Path.mk) htext

theorem loads_settingsFor (h : ∀ f, i.given f = valuesOf f os) (t : FileTree) :
    ∃ file, Chosen t os file ∧ Loads t file (settingsFor t i.config).result := by
  have hconfig := path_eq_some_iff (h .config)
  cases hgiven : i.config with
  | some p => exact ⟨some p, .given ((hconfig p).mp hgiven), loads_settingsIn t p⟩
  | none =>
    have hnone (v : OsString) : (Flag.config, v) ∉ os := by
      intro hv
      have hsome := (hconfig ⟨v⟩).mpr hv
      rw [hgiven] at hsome
      contradiction
    rw [settingsFor]
    cases hhas : t.has usualConfig with
    | true => exact ⟨some usualConfig, .usual hnone hhas, loads_settingsIn t usualConfig⟩
    | false => exact ⟨none, .none hnone hhas, .defaults⟩

theorem layered_override (h : ∀ f, i.given f = valuesOf f os)
    (houtput : ∀ v, (Flag.output, v) ∈ os → i.action = .plot) (base : Settings) :
    Layered os i.action base (i.override base) where
  resultsDir := replaced_getD (path_eq_some_iff (h .resultsDir)) base.resultsDir
  group := by
    refine replaced_getD (fun name => ?_) base.group
    rw [← mem_valuesOf_iff, ← h, Invocation.given,
      List.mem_map_of_injective fun _ _ => OsString.ofText_injective]
    exact Option.mem_toList.symm
  output := by
    have hgives (p? : Option Path) : i.output.map some = some p? ↔
        i.action = .plot ∧ ∃ p : Path, p? = some p ∧ (Flag.output, p.raw) ∈ os := by
      simp only [Option.map_eq_some_iff, path_eq_some_iff (h .output)]
      constructor
      · rintro ⟨p, hp, rfl⟩
        exact ⟨houtput _ hp, p, rfl, hp⟩
      · rintro ⟨-, p, rfl, hp⟩
        exact ⟨p, hp, rfl⟩
    have hover : (i.override base).output = (i.output.map some).getD base.output := by
      rw [Invocation.override]
      cases i.output <;> rfl
    rw [hover]
    exact replaced_getD hgives base.output
  others f hf := by
    cases f <;> first | rfl | exact absurd (by decide) hf

/-- A place of the figure is taken by no other command. -/
theorem action_eq_plot {action : Action} {args : List OsString} {v : OsString} (h : Line os action args)
    (hv : (Flag.output, v) ∈ os) : action = .plot := by
  obtain ⟨before, behind, _, _, rfl, hbefore, hbehind, -⟩ := h.spelled
  rcases List.mem_append.mp hv with hmem | hmem
  · exact absurd (hbefore.mem hmem).1 (by decide)
  · have hflags := (hbehind.mem hmem).1
    cases action with
    | plot => rfl
    | list | print => exact absurd hflags (by decide)

theorem invoke_of_error {launch : Launcher} {m : Machine} {e : LoadFault}
    (h : (settingsFor m.tree i.config).result = .error e) :
    invoke launch i m = (m, ⟨.error (.settings e), (settingsFor m.tree i.config).events⟩) := by
  rw [invoke, h]

theorem invoke_of_ok {m : Machine} {base : Settings} (launch : Launcher)
    (h : (settingsFor m.tree i.config).result = .ok base) :
    ∃ events, invoke launch i m = ((perform launch i.action (i.override base) m).1,
      ⟨(perform launch i.action (i.override base) m).2.result, events⟩) := by
  rw [invoke, h]
  exact ⟨_, rfl⟩

theorem equipped_of_layered {action : Action} {base s : Settings} (h : Layered os action base s) :
    Equipped base s s.roots (.ofSettings s) := by
  have hruntime : s.runtimeDir = base.runtimeDir := h.others .runtimeDir (by decide)
  have hthroughput : s.throughputDir = base.throughputDir := h.others .throughputDir (by decide)
  have hinterpreter : s.interpreter = base.interpreter := h.others .interpreter (by decide)
  have hscript : s.plotScript = base.plotScript := h.others .plotScript (by decide)
  have hdata : s.plotDataDir = base.plotDataDir := h.others .plotDataDir (by decide)
  constructor
  · rw [← hruntime, ← hthroughput]
    rfl
  · rw [ScriptRenderer.ofSettings, hinterpreter, hscript, hdata]

theorem ends_ofCommand? {launch : Launcher} {level : Threshold} {action : Action} {m after : Machine}
    {result : Except CommandFault Unit} (h : Ran launch level os action m after result)
    (events : List Event) :
    Ends launch level os action m (Outcome.ofCommand? after events result) := by
  cases result with
  | ok _ => exact .done h
  | error e =>
    by_cases hendless : e = .report (.composing .endless)
    · subst hendless
      exact .endless h
    · have hends : Outcome.ofCommand? after events (.error e) =
          some ⟨failureCode e.chain?, after, e.chain?, events⟩ := by
        rw [Outcome.ofCommand?]
        exact hendless
      rw [hends]
      exact .failed h hendless

theorem ends_runProgram {action : Action} {args : List OsString} (hline : Line os action args)
    (launch : Launcher) (level : Threshold) (m : Machine) :
    Ends launch level os action m (runProgram launch level args m) := by
  have hgiven := Invocation.given_ofOptions hline
  have haction : (Invocation.ofOptions action os).action = action := rfl
  rw [runProgram, Invocation.ofArguments_of_line hline]
  generalize Invocation.ofOptions action os = i at hgiven haction
  subst haction
  have hlogs : i.logs = directivesOf os := by
    rw [directivesOf, ← hgiven, Invocation.given, List.map_map]
    exact ((List.map_congr_left fun t _ => OsString.lossy_ofText t).trans (List.map_id _)).symm
  dsimp only
  cases hready : startLog m with
  | error cause => exact .unlogged hready
  | ok ready =>
    dsimp only
    cases hds : filterDirectives level i.logs with
    | error e => exact .misdirected hready (hlogs ▸ hds)
    | ok ds =>
      rw [hlogs] at hds
      have hprepared : Prepared level os m ready (settingsFor ready.tree i.config).result :=
        ⟨hready, ⟨ds, hds⟩, loads_settingsFor hgiven ready.tree⟩
      cases hresult : (settingsFor ready.tree i.config).result with
      | error e =>
        rw [hresult] at hprepared
        rw [invoke_of_error hresult]
        exact .unset hprepared
      | ok base =>
        rw [hresult] at hprepared
        obtain ⟨events, hinvoke⟩ := invoke_of_ok launch hresult
        rw [hinvoke]
        have hlayered := layered_override hgiven (fun _ => action_eq_plot hline) base
        exact ends_ofCommand?
          ⟨ready, base, _, _, _, hprepared, hlayered, equipped_of_layered hlayered,
            performs_perform launch i.action (i.override base) ready⟩ _

end

/-- Arguments that are accepted are options around a command. Of the options, those for the results,
the group and the figure replace what the base has, the last only for a plot, and all else is the
base's. The base is what the given file holds, or else the usual file if it is there, or else the
defaults; a file that cannot be read or parsed ends the run before the command. The command looks for
results under the roots of these settings, and a plot is drawn by their renderer. -/
theorem runProgram_layers_settings :
    (∀ args, (∃ i, Invocation.ofArguments args = .ok i) ↔ ∃ os action, Line os action args) ∧
    ∀ os action args, Line os action args → ∀ launch level m,
      Ends launch level os action m (runProgram launch level args m) := by
  refine ⟨fun args => ⟨?_, ?_⟩, fun os action args hline => ends_runProgram hline⟩
  · rintro ⟨i, hi⟩
    obtain ⟨os, hline, -⟩ := Invocation.ofArguments_eq_ok_iff.mp hi
    exact ⟨os, i.action, hline⟩
  · rintro ⟨os, action, hline⟩
    exact ⟨_, Invocation.ofArguments_of_line hline⟩

/-- A group and a figure over the defaults, in a working folder without files. -/
theorem runProgram_layers_oak :
    Ends (fun _ _ => .error .notFound) 2 [(.group, "oak"), (.output, "oak.png")] .plot ⟨.start, ""⟩
      (runProgram (fun _ _ => .error .notFound) 2 ["--group=oak", "plot", "-o", "oak.png"]
        ⟨.start, ""⟩) ∧
    ∃ s roots r, Layered [(.group, "oak"), (.output, "oak.png")] .plot {} s ∧ Equipped {} s roots r ∧
      roots =
        [(.runtime, ⟨"target/criterion/oak/batched analysis times"⟩),
         (.throughput, ⟨"target/criterion/oak/batched analysis throughput"⟩)] ∧
      r = ⟨"python3", ⟨"plots/batched_analysis.py"⟩, ⟨"plot_data"⟩, some ⟨"oak.png"⟩⟩ := by
  have hgroup : Spelled .group "oak" ["--group" ++ "=" ++ "oak"] := .equals (by decide)
  have houtput : Spelled .output "oak.png" ["-o", "oak.png"] := .next (by decide) (by decide)
  have hfits : Flag.group.Fits "oak" := ⟨"oak", rfl⟩
  have hfits' : Flag.output.Fits "oak.png" := show _ ≠ _ by decide
  have hline : Line [(.group, "oak"), (.output, "oak.png")] .plot
      ["--group=oak", "plot", "-o", "oak.png"] :=
    ⟨⟨[(.group, "oak")], [(.output, "oak.png")], ["-o", "oak.png"], [], rfl,
      .cons (by decide) (by decide) hgroup .nil, .cons (by decide) (by decide) houtput .nil, .inl rfl⟩,
      fun f _ => by cases f <;> decide, by simpa using And.intro hfits hfits'⟩
  have hlayered := layered_override (Invocation.given_ofOptions hline) (fun _ _ => rfl) {}
  have hequipped := equipped_of_layered hlayered
  exact ⟨runProgram_layers_settings.2 _ _ _ hline _ _ _, _, _, _, hlayered, hequipped,
    hequipped.roots.trans (by decide +kernel), hequipped.renderer⟩

end SweepReport
