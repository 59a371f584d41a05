import SweepReport.Fallible
import SweepReport.Proofs.CommandLine.Spelling

/-! The arguments that are accepted: options of the program, the name of a command, and options of the
command. What the arguments ask for is what their options give. -/
namespace SweepReport

/-- Options with their values, as arguments spell them in front of others. -/
inductive Options (allowed : List Flag) (tail : List OsString) :
    List (Flag × OsString) → List OsString → Prop where
  | nil : Options allowed tail [] tail
  | cons {f : Flag} {v : OsString} {os : List (Flag × OsString)} {as args : List OsString} :
      f ∈ allowed → f ≠ .help → Spelled f v as → Options allowed tail os args →
      Options allowed tail ((f, v) :: os) (as ++ args)

def valuesOf (f : Flag) (os : List (Flag × OsString)) : List OsString :=
  os.filterMap fun o => if o.1 = f then some o.2 else none

def Flag.pathFlags : List Flag := [config, resultsDir, output]

/-- A path is any string but the empty one, and every other value is a text. -/
def Flag.Fits (f : Flag) (v : OsString) : Prop := if f ∈ pathFlags then v ≠ "" else v.IsText

/-- Arguments that are accepted: options of the program, a command, and options of the command, at
whose end two dashes may stand. All options but those for the log are given at most once. -/
structure Line (os : List (Flag × OsString)) (action : Action) (args : List OsString) : Prop where
  spelled : ∃ before behind rest tail, os = before ++ behind ∧
    Options Flag.ofProgram (action.name :: rest) before args ∧
    Options action.flags tail behind rest ∧ (tail = [] ∨ tail = [("--" : OsString)])
  once : ∀ f, f ≠ .log → (valuesOf f os).length ≤ 1
  fits : ∀ o ∈ os, o.1.Fits o.2

section
variable {f : Flag} {v : OsString} {os os' : List (Flag × OsString)}

theorem mem_valuesOf_iff : v ∈ valuesOf f os ↔ (f, v) ∈ os := by
  simp [valuesOf]

theorem valuesOf_cons (o : Flag × OsString) :
    valuesOf f (o :: os) = valuesOf f [o] ++ valuesOf f os := by
  rw [valuesOf, ← List.singleton_append, List.filterMap_append]
  rfl

theorem valuesOf_append : valuesOf f (os ++ os') = valuesOf f os ++ valuesOf f os' :=
  List.filterMap_append

theorem Options.mem {allowed : List Flag} {tail args : List OsString}
    (h : Options allowed tail os args) (hmem : (f, v) ∈ os) : f ∈ allowed ∧ f ≠ .help := by
  induction h with
  | nil => contradiction
  | cons hf hhelp _ _ ih =>
    rcases List.mem_cons.mp hmem with heq | hmem
    · rw [(Prod.mk.inj heq).1]
      exact ⟨hf, hhelp⟩
    · exact ih hmem

end

namespace Invocation
variable {i j k : Invocation} {f g : Flag} {v : OsString} {os : List (Flag × OsString)}

def given (i : Invocation) : Flag → List OsString
  | .config => i.config.toList.map Path.raw
  | .resultsDir => i.resultsDir.toList.map Path.raw
  | .group => i.group.toList.map OsString.ofText
  | .log => i.logs.map OsString.ofText
  | .output => i.output.toList.map Path.raw
  | .help => []

theorem given_action (action : Action) (f : Flag) :
    ({ i with action } : Invocation).given f = i.given f := by
  cases f <;> rfl

theorem given_action_only (action : Action) (f : Flag) :
    ({ action } : Invocation).given f = [] := by
  cases f <;> rfl

/-- An invocation is its action and what it was given. -/
theorem eq_of_given_eq (haction : i.action = j.action) (h : ∀ f, i.given f = j.given f) : i = j := by
  have heq {α : Type} {raw : α → OsString} (hraw : ∀ a b, raw a = raw b → a = b) {x y : Option α}
      (hxy : x.toList.map raw = y.toList.map raw) : x = y := by
    have hlist := (List.map_inj_right hraw).mp hxy
    cases x <;> cases y <;> simp_all
  have hpath (p q : Path) (hpq : p.raw = q.raw) : p = q := congrArg Path.mk hpq
  have htext (s t : String) (hst : OsString.ofText s = OsString.ofText t) : s = t :=
    OsString.ofText_injective hst
  obtain ⟨action, config, resultsDir, group, logs, output⟩ := i
  rw [mk.injEq]
  exact ⟨haction, heq hpath (h .config), heq hpath (h .resultsDir), heq htext (h .group),
    (List.map_inj_right htext).mp (h .log), heq hpath (h .output)⟩

theorem length_given_le (hf : f ≠ .log) : (i.given f).length ≤ 1 := by
  have hlength {α : Type} (x : Option α) : x.toList.length ≤ 1 := by cases x <;> simp
  cases f <;> simp_all [given]

theorem giveText_eq_ok_iff {set : String → Except Refusal Invocation} :
    ((textOf v).bind set) = .ok j ↔ ∃ t : String, v = t ∧ set t = .ok j := by
  simp only [bind_eq_ok_iff, textOf, ← OsString.text?_eq_some_iff]
  cases v.text? <;> simp

theorem giveOnce_eq_ok_iff {old : Option String} {set : Option String → Invocation} :
    (do return set (← once old (← textOf v)) : Except Refusal Invocation) = .ok j ↔
      old = none ∧ ∃ t : String, v = t ∧ set (some t) = j := by
  refine giveText_eq_ok_iff.trans ?_
  cases old <;> simp [once, bind, Except.bind, pure, Except.pure]

theorem givePath_eq_ok_iff {old : Option Path} {set : Option Path → Invocation} :
    (do return set (← once old (← pathOf v)) : Except Refusal Invocation) = .ok j ↔
      v ≠ "" ∧ old = none ∧ set (some ⟨v⟩) = j := by
  by_cases hv : v = "" <;> cases old <;>
    simp [pathOf, once, hv, bind, Except.bind, pure, Except.pure]

/-- An option adds its value to those that were given. -/
theorem give_of_eq_ok (h : i.give f v = .ok j) :
    f.Fits v ∧ j.action = i.action ∧ ∀ g, j.given g = i.given g ++ valuesOf g [(f, v)] := by
  cases f with
  | config | resultsDir | output =>
    obtain ⟨hv, hold, rfl⟩ := givePath_eq_ok_iff.mp h
    refine ⟨hv, rfl, fun g => ?_⟩
    cases g <;> simp [given, valuesOf, hold]
  | group =>
    obtain ⟨hold, t, rfl, rfl⟩ := giveOnce_eq_ok_iff.mp h
    refine ⟨⟨t, rfl⟩, rfl, fun g => ?_⟩
    cases g <;> simp [given, valuesOf, hold]
  | log =>
    obtain ⟨t, rfl, hset⟩ := giveText_eq_ok_iff.mp h
    obtain rfl := Except.ok.inj hset
    refine ⟨⟨t, rfl⟩, rfl, fun g => ?_⟩
    cases g <;> simp [given, valuesOf]
  | help => contradiction

/-- A value that fits is taken where there is none yet. -/
theorem exists_give (hhelp : f ≠ .help) (hfits : f.Fits v) (hroom : f ≠ .log → i.given f = []) :
    ∃ j, i.give f v = .ok j := by
  cases f with
  | config | resultsDir | output =>
    have hold := hroom (by decide)
    exact ⟨_, givePath_eq_ok_iff.mpr ⟨hfits, by simpa [given] using hold, rfl⟩⟩
  | group =>
    have hold := hroom (by decide)
    obtain ⟨t, ht⟩ : v.IsText := hfits
    exact ⟨_, giveOnce_eq_ok_iff.mpr ⟨by simpa [given] using hold, t, ht, rfl⟩⟩
  | log =>
    obtain ⟨t, ht⟩ : v.IsText := hfits
    exact ⟨_, giveText_eq_ok_iff.mpr ⟨t, ht, rfl⟩⟩
  | help => contradiction

def giveAll (i : Invocation) : List (Flag × OsString) → Except Refusal Invocation
  | [] => .ok i
  | (f, v) :: os => (i.give f v).bind (giveAll · os)

theorem giveAll_append {os' : List (Flag × OsString)} :
    i.giveAll (os ++ os') = (i.giveAll os).bind (giveAll · os') := by
  induction os generalizing i with
  | nil => rfl
  | cons o os ih =>
    rw [List.cons_append, giveAll, giveAll]
    cases i.give o.1 o.2 with
    | error e => rfl
    | ok k => exact ih

/-- What an invocation is after options: each option's values are added in their order. -/
theorem giveAll_eq_ok_iff : i.giveAll os = .ok j ↔
    (∀ o ∈ os, o.1.Fits o.2) ∧ j.action = i.action ∧ ∀ f, j.given f = i.given f ++ valuesOf f os := by
  induction os generalizing i with
  | nil =>
    constructor
    · intro h
      obtain rfl := Except.ok.inj h
      simp [valuesOf]
    · rintro ⟨-, haction, hgiven⟩
      rw [giveAll, eq_of_given_eq haction (fun f => by simpa [valuesOf] using hgiven f)]
  | cons o os ih =>
    obtain ⟨f, v⟩ := o
    rw [giveAll, bind_eq_ok_iff]
    constructor
    · rintro ⟨k, hgive, hrest⟩
      obtain ⟨hfits, haction, hgiven⟩ := give_of_eq_ok hgive
      obtain ⟨hfits', haction', hgiven'⟩ := ih.mp hrest
      refine ⟨List.forall_mem_cons.mpr ⟨hfits, hfits'⟩, haction'.trans haction, fun g => ?_⟩
      rw [hgiven', hgiven, List.append_assoc, ← valuesOf_cons]
    · rintro ⟨hfits, haction, hgiven⟩
      obtain ⟨hfit, hfits⟩ := List.forall_mem_cons.mp hfits
      have hadded : j.given f = i.given f ++ v :: valuesOf f os := by
        rw [hgiven, valuesOf_cons]
        simp [valuesOf]
      have hhelp : f ≠ .help := by
        rintro rfl
        simp [given] at hadded
      have hroom (hlog : f ≠ .log) : i.given f = [] := by
        have hlength := length_given_le hlog (i := j)
        rw [hadded, List.length_append, List.length_cons] at hlength
        exact List.length_eq_zero_iff.mp (by omega)
      obtain ⟨k, hk⟩ := exists_give hhelp hfit hroom
      obtain ⟨-, haction', hgiven'⟩ := give_of_eq_ok hk
      refine ⟨k, hk, ih.mpr ⟨hfits, haction.trans haction'.symm, fun g => ?_⟩⟩
      rw [hgiven, valuesOf_cons, hgiven', List.append_assoc]

theorem giveFlag_eq_ok_iff {attached : Option OsString} {rest : List OsString}
    {r : { r : List OsString // r.length ≤ rest.length }} :
    i.giveFlag f attached rest = .ok (j, r) ↔ f ≠ .help ∧ ∃ v, i.give f v = .ok j ∧
      (attached = some v ∧ rest = r.1 ∨ attached = none ∧ isValue v ∧ rest = v :: r.1) := by
  have hpair (x : Except Refusal Invocation) (s : { r : List OsString // r.length ≤ rest.length }) :
      (·, s) <$> x = .ok (j, r) ↔ x = .ok j ∧ s = r := by
    cases x <;> simp [Functor.map, Except.map]
  unfold giveFlag
  by_cases hhelp : f = .help
  · rw [if_pos hhelp]
    exact ⟨(nomatch ·), fun h => absurd hhelp h.1⟩
  rw [if_neg hhelp]
  cases attached with
  | some v =>
    rw [hpair]
    constructor
    · rintro ⟨hgive, rfl⟩
      exact ⟨hhelp, v, hgive, .inl ⟨rfl, rfl⟩⟩
    · rintro ⟨-, w, hgive, ⟨hv, hrest⟩ | ⟨hnone, -⟩⟩
      · obtain rfl := Option.some.inj hv
        exact ⟨hgive, Subtype.ext hrest⟩
      · contradiction
  | none =>
    cases rest with
    | nil =>
      constructor
      · intro h
        contradiction
      · rintro ⟨-, w, -, ⟨hsome, -⟩ | ⟨-, -, hrest⟩⟩ <;> contradiction
    | cons v rest =>
      dsimp only
      split
      · rename_i hv
        rw [hpair]
        constructor
        · rintro ⟨hgive, rfl⟩
          exact ⟨hhelp, v, hgive, .inr ⟨rfl, hv, rfl⟩⟩
        · rintro ⟨-, w, hgive, ⟨hsome, -⟩ | ⟨-, -, hargs⟩⟩
          · contradiction
          · obtain ⟨rfl, hrest⟩ := List.cons.inj hargs
            exact ⟨hgive, Subtype.ext hrest⟩
      · rename_i hv
        constructor
        · intro h
          contradiction
        · rintro ⟨-, w, -, ⟨hsome, -⟩ | ⟨-, hw, hrest⟩⟩
          · contradiction
          · rw [(List.cons.inj hrest).1] at hv
            exact absurd hw hv

def Takes (allowed : List Flag) (i : Invocation) (args : List OsString) (j : Invocation)
    (left : List OsString) : Prop :=
  ∃ f v as, f ∈ allowed ∧ f ≠ .help ∧ Spelled f v as ∧ args = as ++ left ∧ i.give f v = .ok j

section
variable {allowed : List Flag} {a : OsString} {args rest left : List OsString}

theorem Takes.length_lt (h : Takes allowed i args j left) : left.length < args.length := by
  obtain ⟨f, v, as, -, -, hspelled, rfl, -⟩ := h
  cases hspelled <;> simp +arith

theorem Takes.action_eq (h : Takes allowed i args j left) : j.action = i.action := by
  obtain ⟨f, v, as, -, -, -, -, hgive⟩ := h
  exact (give_of_eq_ok hgive).2.1

theorem takes_cons_iff : Takes allowed i (a :: rest) j left ↔
    ∃ f attached h, Argument.ofString allowed a = .flag f attached ∧
      i.giveFlag f attached rest = .ok (j, ⟨left, h⟩) := by
  constructor
  · rintro ⟨f, v, as, hmem, hhelp, hspelled, hargs, hgive⟩
    rcases hspelled.attached_or_next with ⟨_, rfl, hspelled⟩ | ⟨_, hname, hvalue, rfl⟩
    · obtain ⟨rfl, rfl⟩ := List.cons.inj hargs
      exact ⟨f, some v, by simp, (Argument.ofString_eq_flag_some_iff hhelp).mpr ⟨hmem, hspelled⟩,
        giveFlag_eq_ok_iff.mpr ⟨hhelp, v, hgive, .inl ⟨rfl, rfl⟩⟩⟩
    · obtain ⟨rfl, rfl⟩ := List.cons.inj hargs
      exact ⟨f, none, by simp, (Argument.ofString_eq_flag_none_iff hhelp).mpr ⟨hmem, hname⟩,
        giveFlag_eq_ok_iff.mpr ⟨hhelp, v, hgive, .inr ⟨rfl, hvalue, rfl⟩⟩⟩
  · rintro ⟨f, attached, _, htext, hflag⟩
    obtain ⟨hhelp, v, hgive, ⟨rfl, hleft⟩ | ⟨rfl, hvalue, hleft⟩⟩ := giveFlag_eq_ok_iff.mp hflag
    · obtain ⟨hmem, hspelled⟩ := (Argument.ofString_eq_flag_some_iff hhelp).mp htext
      exact ⟨f, v, [a], hmem, hhelp, hspelled, by rw [hleft]; rfl, hgive⟩
    · obtain ⟨hmem, hname⟩ := (Argument.ofString_eq_flag_none_iff hhelp).mp htext
      exact ⟨f, v, [a, v], hmem, hhelp, .next hname hvalue, by rw [hleft]; rfl, hgive⟩

/-- What goes on option by option, until it stops, reads options and stops behind them. -/
theorem reads_options_iff {read : Invocation → List OsString → Except Refusal Invocation}
    {stops : Invocation → List OsString → Invocation → Prop} {action : Action}
    (hread : ∀ i args j, i.action = action → (read i args = .ok j ↔
      stops i args j ∨ ∃ k left, Takes allowed i args k left ∧ read k left = .ok j))
    (haction : i.action = action) :
    read i args = .ok j ↔
      ∃ os tail k, Options allowed tail os args ∧ i.giveAll os = .ok k ∧ stops k tail j := by
  constructor
  · intro h
    induction hlength : args.length using Nat.strongRecOn generalizing i args with
    | _ n ih =>
      rcases (hread i args j haction).mp h with hstops | ⟨k, left, htakes, hrest⟩
      · exact ⟨[], args, i, .nil, rfl, hstops⟩
      · have hlt : left.length < n := hlength ▸ htakes.length_lt
        obtain ⟨os, tail, k', hoptions, hgive', hstops⟩ :=
          ih left.length hlt (htakes.action_eq.trans haction) hrest rfl
        obtain ⟨f, v, as, hmem, hhelp, hspelled, rfl, hgive⟩ := htakes
        exact ⟨(f, v) :: os, tail, k', .cons hmem hhelp hspelled hoptions,
          bind_eq_ok_iff.mpr ⟨k, hgive, hgive'⟩, hstops⟩
  · rintro ⟨os, tail, k, hoptions, hgive, hstops⟩
    induction hoptions generalizing i with
    | nil =>
      obtain rfl := Except.ok.inj hgive
      exact (hread i tail j haction).mpr (.inl hstops)
    | @cons f v os as args hmem hhelp hspelled _ ih =>
      obtain ⟨k', hgive', hrest⟩ := bind_eq_ok_iff.mp hgive
      have htakes : Takes allowed i (as ++ args) k' args :=
        ⟨f, v, as, hmem, hhelp, hspelled, rfl, hgive'⟩
      exact (hread i _ j haction).mpr
        (.inr ⟨k', args, htakes, ih (htakes.action_eq.trans haction) hrest⟩)

/-- The arguments of a command go on with an option, or are at their end. -/
theorem readCommand_eq_ok_iff : readCommand i args = .ok j ↔ (args = [] ∨ args = [("--" : OsString)]) ∧ i = j ∨
    ∃ k left, Takes i.action.flags i args k left ∧ readCommand k left = .ok j := by
  cases args with
  | nil =>
    rw [readCommand]
    constructor
    · exact fun h => .inl ⟨.inl rfl, Except.ok.inj h⟩
    · rintro (⟨-, rfl⟩ | ⟨k, left, htakes, -⟩)
      · rfl
      · exact absurd htakes.length_lt (Nat.not_lt_zero _)
  | cons a rest =>
    constructor
    · intro h
      rw [readCommand] at h
      split at h
      · rename_i htext
        split at h
        · rename_i hrest
          rw [Argument.eq_of_ofString_eq_escape htext, List.isEmpty_iff.mp hrest]
          exact .inl ⟨.inr rfl, Except.ok.inj h⟩
        · contradiction
      · rename_i f attached htext
        split at h
        · contradiction
        · rename_i k left hleft hgive
          exact .inr ⟨k, left, takes_cons_iff.mpr ⟨f, attached, hleft, htext, hgive⟩, h⟩
      · contradiction
    · rintro (⟨hend, rfl⟩ | ⟨k, left, htakes, h⟩)
      · obtain ⟨rfl, rfl⟩ := List.cons.inj (hend.resolve_left (List.cons_ne_nil _ _))
        rw [readCommand]
        rfl
      · obtain ⟨f, attached, hleft, htext, hgive⟩ := takes_cons_iff.mp htakes
        rw [readCommand, htext]
        dsimp only
        rw [hgive]
        exact h

/-- The arguments of the program go on with an option, or with a command. -/
theorem readProgram_eq_ok_iff : readProgram i args = .ok j ↔
    (∃ (action : Action) (rest : List OsString), args = OsString.ofText action.name :: rest ∧
      readCommand { i with action } rest = .ok j) ∨
    ∃ k left, Takes Flag.ofProgram i args k left ∧ readProgram k left = .ok j := by
  cases args with
  | nil =>
    rw [readProgram]
    constructor
    · intro h
      contradiction
    · rintro (⟨action, rest, hargs, -⟩ | ⟨k, left, htakes, -⟩)
      · contradiction
      · exact absurd htakes.length_lt (Nat.not_lt_zero _)
  | cons a rest =>
    constructor
    · intro h
      rw [readProgram] at h
      split at h
      · split at h
        · contradiction
        split at h
        · rename_i action hname
          exact .inl ⟨action, rest, by rw [Action.ofName?_eq_some_iff.mp hname], h⟩
        · contradiction
      · rename_i f attached htext
        split at h
        · contradiction
        · rename_i k left hleft hgive
          exact .inr ⟨k, left, takes_cons_iff.mpr ⟨f, attached, hleft, htext, hgive⟩, h⟩
      · contradiction
    · rintro (⟨action, _, hargs, h⟩ | ⟨k, left, htakes, h⟩)
      · obtain ⟨rfl, rfl⟩ := List.cons.inj hargs
        have hplain : Argument.ofString Flag.ofProgram action.name = .plain := by cases action <;> rfl
        have hhelp : action.name ≠ helpCommand := by cases action <;> decide
        rw [readProgram, hplain]
        dsimp only
        rw [if_neg hhelp, Action.ofName?_eq_some_iff.mpr rfl]
        exact h
      · obtain ⟨f, attached, hleft, htext, hgive⟩ := takes_cons_iff.mp htakes
        rw [readProgram, htext]
        dsimp only
        rw [hgive]
        exact h

theorem ofArguments_eq_ok_iff_halves : ofArguments args = .ok i ↔
    ∃ before behind rest tail k,
      Options Flag.ofProgram (i.action.name :: rest) before args ∧
      Options i.action.flags tail behind rest ∧ (tail = [] ∨ tail = [("--" : OsString)]) ∧
      giveAll { action := .list } before = .ok k ∧
      giveAll { k with action := i.action } behind = .ok i := by
  have hcommand (k : Invocation) (action : Action) (rest : List OsString) :
      readCommand { k with action } rest = .ok i ↔
        ∃ behind tail k', Options action.flags tail behind rest ∧
          giveAll { k with action } behind = .ok k' ∧ (tail = [] ∨ tail = [("--" : OsString)]) ∧ k' = i :=
    reads_options_iff (fun _ _ _ haction => haction ▸ readCommand_eq_ok_iff) rfl
  rw [ofArguments, reads_options_iff (fun _ _ _ _ => readProgram_eq_ok_iff) rfl]
  constructor
  · rintro ⟨before, _, k, hbefore, hgive, action, rest, rfl, hrest⟩
    obtain ⟨behind, tail, _, hbehind, hgive', htail, rfl⟩ := (hcommand k action rest).mp hrest
    obtain ⟨-, haction, -⟩ := giveAll_eq_ok_iff.mp hgive'
    rw [haction]
    exact ⟨before, behind, rest, tail, k, hbefore, hbehind, htail, hgive, hgive'⟩
  · rintro ⟨before, behind, rest, tail, k, hbefore, hbehind, htail, hgive, hgive'⟩
    exact ⟨before, _, k, hbefore, hgive, i.action, rest, rfl,
      (hcommand k i.action rest).mpr ⟨behind, tail, i, hbehind, hgive', htail, rfl⟩⟩

/-- Arguments are accepted exactly if they are options around a command, as they may be given. What
they ask for is the command and what the options give. -/
theorem ofArguments_eq_ok_iff : ofArguments args = .ok i ↔
    ∃ os, Line os i.action args ∧ ∀ f, i.given f = valuesOf f os := by
  rw [ofArguments_eq_ok_iff_halves]
  constructor
  · rintro ⟨before, behind, rest, tail, k, hbefore, hbehind, htail, hgive, hgive'⟩
    obtain ⟨hfits, -, hgiven⟩ := giveAll_eq_ok_iff.mp hgive
    obtain ⟨hfits', -, hgiven'⟩ := giveAll_eq_ok_iff.mp hgive'
    have hall (f : Flag) : i.given f = valuesOf f (before ++ behind) := by
      rw [hgiven', given_action, hgiven, given_action_only, List.nil_append, valuesOf_append]
    refine ⟨before ++ behind, ⟨⟨before, behind, rest, tail, rfl, hbefore, hbehind, htail⟩, ?_, ?_⟩, hall⟩
    · exact fun f hf => hall f ▸ length_given_le hf
    · exact List.forall_mem_append.mpr ⟨hfits, hfits'⟩
  · rintro ⟨_, ⟨⟨before, behind, rest, tail, rfl, hbefore, hbehind, htail⟩, -, hfits⟩, hgiven⟩
    have hall : giveAll { action := i.action } (before ++ behind) = .ok i :=
      giveAll_eq_ok_iff.mpr ⟨hfits, rfl, fun f => by rw [hgiven, given_action_only]; rfl⟩
    rw [giveAll_append] at hall
    obtain ⟨k, hgive, hgive'⟩ := bind_eq_ok_iff.mp hall
    obtain ⟨hfits, haction, hgiven⟩ := giveAll_eq_ok_iff.mp hgive
    -- Which command it is shows only after the first half, so that is read under another.
    have hfirst : giveAll { action := .list } before = .ok { k with action := .list } :=
      giveAll_eq_ok_iff.mpr ⟨hfits, rfl, fun f => by
        rw [given_action, hgiven, given_action_only, given_action_only]⟩
    refine ⟨before, behind, rest, tail, _, hbefore, hbehind, htail, hfirst, ?_⟩
    have hk : ({ k with action := i.action } : Invocation) = k :=
      eq_of_given_eq haction.symm (given_action i.action)
    exact hk ▸ hgive'

/-- What options ask of a command, where each is given at most once. -/
def ofOptions (action : Action) (os : List (Flag × OsString)) : Invocation where
  action
  config := (valuesOf .config os).head?.map Path.mk
  resultsDir := (valuesOf .resultsDir os).head?.map Path.mk
  group := (valuesOf .group os).head?.map OsString.lossy
  logs := (valuesOf .log os).map OsString.lossy
  output := (valuesOf .output os).head?.map Path.mk

section
variable {os : List (Flag × OsString)} {action : Action}

theorem given_ofOptions (h : Line os action args) (f : Flag) :
    (ofOptions action os).given f = valuesOf f os := by
  have honce {f : Flag} (hf : f ≠ .log) : (valuesOf f os).head?.toList = valuesOf f os := by
    have hlength := h.once f hf
    match hvalues : valuesOf f os with
    | [] | [_] => rfl
    | _ :: _ :: _ => simp [hvalues] at hlength
  have hpath {f : Flag} (hf : f ≠ .log) :
      ((valuesOf f os).head?.map Path.mk).toList.map Path.raw = valuesOf f os := by
    rw [← honce hf]
    cases (valuesOf f os).head? <;> rfl
  have htexts {f : Flag} (hf : f ∉ Flag.pathFlags) :
      ((valuesOf f os).map OsString.lossy).map OsString.ofText = valuesOf f os := by
    rw [List.map_map]
    refine (List.map_congr_left fun v hv => ?_).trans (List.map_id _)
    have hfits : f.Fits v := h.fits _ (mem_valuesOf_iff.mp hv)
    rw [Flag.Fits, if_neg hf] at hfits
    exact hfits.ofText_lossy
  cases f with
  | config | resultsDir | output => exact hpath (by decide)
  | group =>
    rw [← htexts (by decide), ← honce (by decide)]
    simp only [given, ofOptions]
    cases (valuesOf .group os).head? <;> rfl
  | log => exact htexts (by decide)
  | help =>
    refine (List.eq_nil_iff_forall_not_mem.mpr fun v hv => ?_).symm
    obtain ⟨before, behind, _, _, rfl, hbefore, hbehind, -⟩ := h.spelled
    rcases List.mem_append.mp (mem_valuesOf_iff.mp hv) with hmem | hmem
    · exact (hbefore.mem hmem).2 rfl
    · exact (hbehind.mem hmem).2 rfl

theorem ofArguments_of_line (h : Line os action args) :
    ofArguments args = .ok (ofOptions action os) :=
  ofArguments_eq_ok_iff.mpr ⟨os, h, given_ofOptions h⟩

end

end

end Invocation
end SweepReport
