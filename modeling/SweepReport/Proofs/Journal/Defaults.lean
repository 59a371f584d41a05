import SweepReport.Proofs.Journal.Target

/-! The levels of the library modules. The filter holds the last directive given for the same events, and
the default one of a module is given last, but only where no directive given before has a target that
starts with the module's name, be it the module's or not. -/
namespace SweepReport

theorem moduleName_of_mem {name : String} (h : name ∈ libraryModules) :
    Directive.ModuleName name.toList := by
  -- Letters are tested by `List.all`, as a statement on every letter of a list is decided letter by
  -- letter over all there are.
  have hall : ∀ name ∈ libraryModules, name.toList.head?.any Directive.startsDirective = true ∧
      name.toList.all (fun c => c ≠ '=' && c ≠ '[' && c ≠ ',' && !Text.isBlank c) = true ∧
      name.toList.head?.all (fun c => !Numeral.isDigit c && c ≠ '+') = true ∧
      ∀ level ∈ Threshold.names, ¬ name.toList.map Char.toLower <+: level.toList := by
    decide +kernel
  obtain ⟨hstarts, hletters, hnumber, hlevel⟩ := hall name h
  simp only [List.all_eq_true, Option.all_eq_true, Bool.and_eq_true, decide_eq_true_eq,
    Bool.not_eq_true'] at hletters hnumber
  exact ⟨hstarts, fun c hc => ⟨(hletters c hc).1.1.1, (hletters c hc).1.1.2, (hletters c hc).1.2⟩,
    fun c hc => (hletters c hc).2, hnumber, hlevel⟩

namespace Directive

def Targets (d : Directive) (name : String) : Prop :=
  ∃ t, d.target = some t ∧ (t = name ∨ (name ++ "::").toList <+: t.toList)

def TargetStarts (d : Directive) (name : String) : Prop :=
  ∃ t, d.target = some t ∧ name.toList <+: t.toList

theorem prefix_iff_targetStarts {name : String} (hname : name ∈ libraryModules) {s : String}
    {d : Directive} (h : ofText s = .ok d) : name.toList <+: s.toList ↔ d.TargetStarts name := by
  refine ⟨fun hs => (moduleName_of_mem hname).target_of_text hs h, ?_⟩
  rintro ⟨t, htarget, ht⟩
  exact ht.trans (target_starts_text h htarget)

theorem ofText_default {name : String} (hname : name ∈ libraryModules) {level : Threshold}
    (hlevel : level ≤ Threshold.everything) :
    ofText (name ++ "=" ++ level.nameOf) = .ok (forTarget name level) := by
  have hall : ∀ level ≤ Threshold.everything, Threshold.ofText? level.nameOf = some level ∧
      level.nameOf ≠ "" ∧ ',' ∉ level.nameOf.toList ∧
      level.nameOf.toList.head?.all (!Text.isBlank ·) = true ∧
      level.nameOf.toList.getLast?.all (!Text.isBlank ·) = true := by
    decide +kernel
  obtain ⟨hread, hne, hcomma, hfirst, hlast⟩ := hall level hlevel
  simp only [Option.all_eq_true, Bool.not_eq_true'] at hfirst hlast
  have h := (moduleName_of_mem hname).ofText_level hread hne hcomma ⟨hfirst, hlast⟩
  rwa [String.ofList_toList] at h

end Directive

namespace Filter

theorem concerns_iff {a b : Directive} :
    concerns a b ↔ a.target = b.target ∧ a.fields = b.fields := by
  simp [concerns]

theorem concerns_congr {e x : Directive} (h : concerns e x) (d : Directive) :
    concerns d x = concerns d e := by
  obtain ⟨htarget, hfields⟩ := concerns_iff.mp h
  rw [concerns, concerns, htarget, hfields]

theorem concerns_of_both {d e x : Directive} (he : concerns d e) (hx : concerns d x) :
    concerns e x := by
  obtain ⟨htarget, hfields⟩ := concerns_iff.mp he
  obtain ⟨htarget', hfields'⟩ := concerns_iff.mp hx
  exact concerns_iff.mpr ⟨htarget.symm.trans htarget', hfields.symm.trans hfields'⟩

/-- A directive that is added is the one for its events from then on. -/
theorem find?_add (d e : Directive) (fs : List Directive) :
    (add e fs).find? (concerns d) = if concerns d e then some e else fs.find? (concerns d) := by
  induction fs with
  | nil =>
    rw [add, List.find?_cons]
    cases concerns d e <;> rfl
  | cons x fs ih =>
    rw [add]
    split
    · rename_i hx
      rw [List.find?_cons, List.find?_cons, concerns_congr hx]
      cases concerns d e <;> rfl
    · rename_i hx
      split
      · rw [List.find?_cons]
        cases concerns d e <;> rfl
      · rw [List.find?_cons, List.find?_cons, ih]
        cases hdx : concerns d x with
        | false => rfl
        | true =>
          have hde : ¬ concerns d e := fun hde => hx (concerns_of_both hde hdx)
          rw [if_neg hde, if_neg hde]

theorem find?_build (d : Directive) (ds : List Directive) :
    (build ds).find? (concerns d) = (ds.filter Directive.isStatic).reverse.find? (concerns d) := by
  rw [build]
  induction ds.filter Directive.isStatic using List.reverseRecOn with
  | nil => rfl
  | append_singleton ds e ih =>
    rw [List.foldl_append, List.foldl_cons, List.foldl_nil, find?_add, ih, List.reverse_append,
      List.reverse_singleton, List.singleton_append, List.find?_cons]
    cases concerns d e <;> rfl

end Filter

theorem forall₂_of_mapM {α β ε : Type} {f : α → Except ε β} {xs : List α} {ys : List β}
    (h : xs.mapM f = .ok ys) : List.Forall₂ (fun x y => f x = .ok y) xs ys := by
  induction xs generalizing ys with
  | nil =>
    cases h
    exact .nil
  | cons x xs ih =>
    rw [List.mapM_cons] at h
    obtain ⟨y, hy, h⟩ := bind_eq_ok_iff.mp h
    obtain ⟨ys, hys, h⟩ := bind_eq_ok_iff.mp h
    cases h
    exact .cons hy (ih hys)

section
variable {level : Threshold} {given : List String} {parsed : List Directive} {name : String}

def defaultModules (given : List String) : List String :=
  libraryModules.filter fun m => !given.any fun g => m.toList.isPrefixOf g.toList

theorem mem_defaultModules_iff (hgiven : given.mapM Directive.ofText = .ok parsed)
    (hname : name ∈ libraryModules) :
    name ∈ defaultModules given ↔ ∀ d ∈ parsed, ¬ d.TargetStarts name := by
  have hpairs := forall₂_of_mapM hgiven
  have hprefix : (∀ g ∈ given, ¬ name.toList <+: g.toList) ↔ ∀ d ∈ parsed, ¬ d.TargetStarts name := by
    clear hgiven
    induction hpairs with
    | nil => simp
    | cons hd _ ih =>
      simp only [List.forall_mem_cons, Directive.prefix_iff_targetStarts hname hd, ih]
  rw [← hprefix]
  simp [defaultModules, hname]

theorem filterDirectives_eq (hgiven : given.mapM Directive.ofText = .ok parsed) :
    filterDirectives level given = .ok (.forTarget Source.command.name level :: parsed ++
      (defaultModules given).map (.forTarget · level)) := by
  rw [filterDirectives, hgiven]
  rfl

theorem concerns_forTarget {m : String} {l : Threshold} :
    Filter.concerns (.forTarget name level) (.forTarget m l) ↔ m = name := by
  rw [Filter.concerns_iff]
  constructor
  · rintro ⟨htarget, -⟩
    exact (Option.some.inj htarget).symm
  · rintro rfl
    exact ⟨rfl, rfl⟩

theorem find?_defaults (name : String) (level : Threshold) (ms : List String) :
    (ms.map (Directive.forTarget · level)).reverse.find? (Filter.concerns (.forTarget name level)) =
      if name ∈ ms then some (.forTarget name level) else none := by
  split
  · rename_i hmem
    have hsome : ((ms.map (Directive.forTarget · level)).reverse.find?
        (Filter.concerns (.forTarget name level))).isSome :=
      List.find?_isSome.mpr ⟨.forTarget name level, by simpa using ⟨name, hmem, rfl⟩,
        concerns_forTarget.mpr rfl⟩
    obtain ⟨d, hd⟩ := Option.isSome_iff_exists.mp hsome
    obtain ⟨m, -, rfl⟩ := List.mem_map.mp (List.mem_reverse.mp (List.mem_of_find?_eq_some hd))
    rw [hd, concerns_forTarget.mp (List.find?_some hd)]
  · rename_i hmem
    refine List.find?_eq_none.mpr fun d hd => ?_
    obtain ⟨m, hm, rfl⟩ := List.mem_map.mp (List.mem_reverse.mp hd)
    rw [concerns_forTarget]
    rintro rfl
    exact hmem hm

/-- For all events of a module the filter holds the default, or else what was given for them last. -/
theorem find?_filterDirectives (hgiven : given.mapM Directive.ofText = .ok parsed)
    (hname : name ∈ libraryModules) :
    ∃ ds, filterDirectives level given = .ok ds ∧
      (Filter.build ds).find? (Filter.concerns (.forTarget name level)) =
        if name ∈ defaultModules given then some (.forTarget name level)
        else (parsed.filter Directive.isStatic).reverse.find?
          (Filter.concerns (.forTarget name level)) := by
  refine ⟨_, filterDirectives_eq hgiven, ?_⟩
  have hstatic (ms : List String) : (ms.map (Directive.forTarget · level)).filter Directive.isStatic =
      ms.map (Directive.forTarget · level) := by
    refine List.filter_eq_self.mpr fun d hd => ?_
    obtain ⟨m, -, rfl⟩ := List.mem_map.mp hd
    rfl
  have hcommand : Filter.concerns (.forTarget name level) (.forTarget Source.command.name level) =
      false := by
    have hne : ∀ name ∈ libraryModules, Source.command.name ≠ name := by decide
    exact Bool.eq_false_iff.mpr fun h => hne name hname (concerns_forTarget.mp h)
  have hfirst : [Directive.forTarget Source.command.name level].filter Directive.isStatic =
      [.forTarget Source.command.name level] := hstatic [Source.command.name]
  rw [Filter.find?_build, ← List.singleton_append, List.filter_append, List.filter_append, hstatic, hfirst,
    List.reverse_append, List.reverse_append, List.find?_append, List.find?_append, find?_defaults]
  split
  · rfl
  · simp [hcommand]

/-- The filter holds the default level of a module where no directive is given for a target that starts
with the module's name, and otherwise what is given for the module itself, if anything is. So where nothing
is given for the module or for one below it, the default is missing exactly when some other target starts
with the module's name. -/
theorem default_installed_iff (hlevel : level ≤ Threshold.everything) (hname : name ∈ libraryModules)
    (hgiven : given.mapM Directive.ofText = .ok parsed) :
    ∃ default ds, Directive.ofText (name ++ "=" ++ level.nameOf) = .ok default ∧
      filterDirectives level given = .ok ds ∧
      ((∀ d ∈ parsed, ¬ d.TargetStarts name) →
        (Filter.build ds).find? (Filter.concerns default) = some default) ∧
      ((∃ d ∈ parsed, d.TargetStarts name) →
        (Filter.build ds).find? (Filter.concerns default) =
          (parsed.filter Directive.isStatic).reverse.find? (Filter.concerns default)) ∧
      ((∀ d ∈ parsed, ¬ d.Targets name) →
        ((Filter.build ds).find? (Filter.concerns default) = some default ↔
          ∀ d ∈ parsed, ¬ d.TargetStarts name)) := by
  obtain ⟨ds, hds, hfind⟩ : ∃ ds, filterDirectives level given = .ok ds ∧ _ :=
    find?_filterDirectives hgiven hname
  have hmem := mem_defaultModules_iff hgiven hname
  refine ⟨.forTarget name level, ds, Directive.ofText_default hname hlevel, hds, fun hnone => ?_,
    fun hsome => ?_, fun hfree => ?_⟩
  · rw [hfind, if_pos (hmem.mpr hnone)]
  · rw [hfind, if_neg]
    rw [hmem]
    simpa using hsome
  · rw [hfind, ← hmem]
    refine ⟨fun h => ?_, fun h => if_pos h⟩
    by_contra hnot
    rw [if_neg hnot] at h
    have hd := (List.mem_filter.mp (List.mem_reverse.mp (List.mem_of_find?_eq_some h))).1
    exact hfree _ hd ⟨name, rfl, .inl rfl⟩

end

/-- A directive for a part of a library leaves the other libraries their level. -/
theorem default_installed_beside_index :
    ∃ default ds, Directive.ofText "common=warn" = .ok default ∧
      filterDirectives Level.warn.rank ["batched_analysis::index=debug", "[span]=info"] = .ok ds ∧
      (Filter.build ds).find? (Filter.concerns default) = some default := by
  have hlevel : Level.warn.rank ≤ Threshold.everything := by decide
  have hname : "common" ∈ libraryModules := by decide
  have hparsed : ["batched_analysis::index=debug", "[span]=info"].mapM Directive.ofText =
      .ok [.forTarget "batched_analysis::index" Level.debug.rank,
        ⟨none, some "span", [], Level.info.rank⟩] := by decide +kernel
  obtain ⟨default, ds, hdefault, hds, hinstalled, -⟩ := default_installed_iff hlevel hname hparsed
  refine ⟨default, ds, hdefault, hds, hinstalled ?_⟩
  simp [Directive.TargetStarts, Directive.forTarget]

/-- The program's own name starts with that of a library. A directive for the program alone takes the
library its level, and what it notes is lost. -/
theorem command_directive_silences_library :
    ∃ parsed ds, ["batched_analysis_report=debug"].mapM Directive.ofText = .ok parsed ∧
      (∀ d ∈ parsed, ¬ d.Targets "batched_analysis") ∧
      filterDirectives Level.debug.rank ["batched_analysis_report=debug"] = .ok ds ∧
      .forTarget "batched_analysis" Level.debug.rank ∉ Filter.build ds ∧
      Filter.keeps (Filter.build ds)
        ⟨.debug, .analysis, "Collecting metrics from \"target/criterion/engine262\""⟩ = false := by
  have hparsed : ["batched_analysis_report=debug"].mapM Directive.ofText =
      .ok [.forTarget "batched_analysis_report" Level.debug.rank] := by decide +kernel
  refine ⟨_, _, hparsed, fun d hd => ?_, filterDirectives_eq hparsed, by decide +kernel,
    by decide +kernel⟩
  rintro ⟨t, htarget, ht⟩
  rw [List.mem_singleton.mp hd, Directive.forTarget, Option.some.injEq] at htarget
  subst htarget
  exact absurd ht (by decide)

end SweepReport
