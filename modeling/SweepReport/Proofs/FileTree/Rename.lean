import SweepReport.Proofs.FileTree.Proper

/-! Renaming in a file tree. Everything stays where it is but for the names on the way there: a way
that goes by names which do not change leads to the same, and what a renamed folder holds is found
under its new name. -/
namespace SweepReport

namespace Place

def relabelNames (ρ : Place → OsString → OsString) : List OsString → List OsString
  | [] => []
  | name :: above => ρ (ofNames above) name :: relabelNames ρ above

/-- The place where every name on the way is what `ρ` makes of it in the folder it is in. -/
def relabel (ρ : Place → OsString → OsString) (p : Place) : Place := ofNames (relabelNames ρ p.names)

section
variable {ρ : Place → OsString → OsString}

theorem relabel_top : top.relabel ρ = top := rfl

theorem relabel_child (p : Place) (name : OsString) :
    (p.child name).relabel ρ = (p.relabel ρ).child (ρ p name) := by
  have hp : ofNames p.names = p := eq_of_names rfl
  refine eq_of_names ?_
  change ρ (ofNames p.names) name :: relabelNames ρ p.names = _
  rw [hp]
  rfl

theorem relabel_parent (p : Place) : p.parent.relabel ρ = (p.relabel ρ).parent := by
  induction p using byChild with
  | top => rfl
  | child p name ih => rw [relabel_child, parent_child, parent_child]

theorem relabel_eq_top_iff {p : Place} : p.relabel ρ = top ↔ p = top := by
  induction p using byChild with
  | top => simp [relabel_top]
  | child p name ih => simp [relabel_child, child_ne_top]

theorem relabel_eq_self {p : Place} (h : ∀ q name, (q.child name).isAbove p → ρ q name = name) :
    p.relabel ρ = p := by
  induction p using byChild with
  | top => rfl
  | child p name ih =>
    rw [relabel_child, h p name (isAbove_self _),
      ih fun q other habove => h q other (isAbove_child habove name)]

end
end Place

namespace FileTree

theorem exists_at?_of_mem {t : FileTree} {p : Place} (h : p ∈ t.entries.map Prod.fst) :
    ∃ e, t.at? p = some e := by
  by_cases htop : p = .top
  · exact ⟨.folder, by rw [htop, at?_top]⟩
  · obtain ⟨e, hmem, hplace⟩ := List.mem_map.mp h
    exact ⟨e.2, (at?_eq_some_iff htop).mpr (hplace ▸ hmem)⟩

/-- The second tree has what the first has, under other names and listed in any order. -/
structure Renamed (ρ : Place → OsString → OsString) (t t' : FileTree) : Prop where
  perm : t'.entries.Perm (t.entries.map fun e => (e.1.relabel ρ, e.2))
  here : t'.here = t.here.relabel ρ

def TellsApart (t : FileTree) (ρ : Place → OsString → OsString) : Prop :=
  ∀ p a b d e, t.at? (p.child a) = some d → t.at? (p.child b) = some e → ρ p a = ρ p b → a = b

/-- Whether the way goes by names that do not change. -/
def keeps (t : FileTree) (ρ : Place → OsString → OsString) : Place → List OsString → Bool
  | _, [] => true
  | p, name :: names =>
    ρ p name == name &&
      match t.step p name with
      | .error _ => true
      | .ok next => keeps t ρ next names

section
variable {ρ : Place → OsString → OsString} {t t' : FileTree}

theorem renamed_self (t : FileTree) (hρ : ∀ p name, ρ p name = name) : Renamed ρ t t := by
  have hplace (p : Place) : p.relabel ρ = p := Place.relabel_eq_self fun q name _ => hρ q name
  refine ⟨List.Perm.of_eq ?_, (hplace t.here).symm⟩
  simp [hplace]

theorem relabel_injective (hproper : t.Proper) (hapart : t.TellsApart ρ) {p q : Place}
    {d e : Entry} (hp : t.at? p = some d) (hq : t.at? q = some e)
    (h : p.relabel ρ = q.relabel ρ) : p = q := by
  induction p using Place.byChild generalizing q d e with
  | top => exact (Place.relabel_eq_top_iff.mp h.symm).symm
  | child p a ih =>
    cases q using Place.byChild with
    | top => exact Place.relabel_eq_top_iff.mp h
    | child q b =>
      rw [Place.relabel_child, Place.relabel_child] at h
      obtain ⟨habove, hname⟩ := Place.child_inj h
      have hsame : p = q := ih (hproper p a d hp).2 (hproper q b e hq).2 habove
      subst hsame
      rw [hapart p a b d e hp hq hname]

theorem exists_renamed (hproper : t.Proper) (hapart : t.TellsApart ρ) : ∃ t', Renamed ρ t t' := by
  have hdistinct : ((t.entries.map fun e => (e.1.relabel ρ, e.2)).map Prod.fst).Nodup := by
    have hplaces : (t.entries.map fun e => (e.1.relabel ρ, e.2)).map Prod.fst =
        (t.entries.map Prod.fst).map (Place.relabel ρ) := by
      rw [List.map_map, List.map_map]
      rfl
    rw [hplaces]
    refine List.Nodup.map_on (fun p hp q hq h => ?_) t.distinct
    obtain ⟨d, hd⟩ := exists_at?_of_mem hp
    obtain ⟨e, he⟩ := exists_at?_of_mem hq
    exact relabel_injective hproper hapart hd he h
  exact ⟨⟨_, hdistinct, t.here.relabel ρ⟩, List.Perm.refl _, rfl⟩

/-- A step looks only at the folder it is taken from. -/
theorem step_relabel {p : Place} {name : OsString}
    (hat : t'.at? (p.relabel ρ) = t.at? p) (hname : ρ p name = name) :
    t'.step (p.relabel ρ) name = (t.step p name).map (Place.relabel ρ) := by
  unfold step
  rw [hat]
  cases t.at? p with
  | none => rfl
  | some e =>
    cases e with
    | file content => rfl
    | folder =>
      dsimp only
      by_cases hhere : name = Path.here
      · rw [if_pos hhere, if_pos hhere, Except.map]
      · by_cases hup : name = Path.up
        · rw [if_neg hhere, if_neg hhere, if_pos hup, if_pos hup, Except.map, Place.relabel_parent]
        · rw [if_neg hhere, if_neg hhere, if_neg hup, if_neg hup]
          split
          · rfl
          · rw [Except.map, Place.relabel_child, hname]

namespace Renamed

theorem at?_relabel (h : Renamed ρ t t') {p : Place} {e : Entry} (hp : t.at? p = some e) :
    t'.at? (p.relabel ρ) = some e := by
  by_cases htop : p = .top
  · rw [htop, at?_top] at hp
    rw [htop, Place.relabel_top, at?_top, hp]
  · have hmem := List.mem_map_of_mem (f := fun e => (e.1.relabel ρ, e.2))
      ((at?_eq_some_iff htop).mp hp)
    exact (at?_eq_some_iff (mt Place.relabel_eq_top_iff.mp htop)).mpr (h.perm.mem_iff.mpr hmem)

theorem exists_at? (h : Renamed ρ t t') {q : Place} {e : Entry} (hq : t'.at? q = some e) :
    ∃ p, t.at? p = some e ∧ p.relabel ρ = q := by
  by_cases htop : q = .top
  · rw [htop, at?_top] at hq
    exact ⟨.top, by rw [at?_top, hq], by rw [Place.relabel_top, htop]⟩
  · obtain ⟨⟨p, d⟩, hmem, heq⟩ :=
      List.mem_map.mp (h.perm.mem_iff.mp ((at?_eq_some_iff htop).mp hq))
    cases heq
    have hp : p ≠ .top := mt Place.relabel_eq_top_iff.mpr htop
    exact ⟨p, (at?_eq_some_iff hp).mpr hmem, rfl⟩

/-- Nothing comes to stand where something else does. -/
theorem injective (h : Renamed ρ t t') {p q : Place} {d e : Entry} (hp : t.at? p = some d)
    (hq : t.at? q = some e) (heq : p.relabel ρ = q.relabel ρ) : p = q := by
  by_cases hptop : p = .top
  · rw [hptop, Place.relabel_top] at heq
    rw [hptop, Place.relabel_eq_top_iff.mp heq.symm]
  · by_cases hqtop : q = .top
    · rw [hqtop, Place.relabel_top, Place.relabel_eq_top_iff] at heq
      exact absurd heq hptop
    · have hnodup : (t.entries.map fun e => e.1.relabel ρ).Nodup := by
        have hdistinct := (h.perm.map Prod.fst).nodup_iff.mp t'.distinct
        rwa [List.map_map] at hdistinct
      have hsame := List.inj_on_of_nodup_map hnodup ((at?_eq_some_iff hptop).mp hp)
        ((at?_eq_some_iff hqtop).mp hq) heq
      exact congrArg Prod.fst hsame

/-- What is in a folder was there before under an old name. -/
theorem exists_child (h : Renamed ρ t t') (hproper : t.Proper) {p : Place} {name : OsString} {e : Entry}
    (hp : t.at? p = some .folder) (he : t'.at? ((p.relabel ρ).child name) = some e) :
    ∃ old, t.at? (p.child old) = some e ∧ ρ p old = name := by
  obtain ⟨q, hq, heq⟩ := h.exists_at? he
  cases q using Place.byChild with
  | top => exact absurd heq.symm (Place.child_ne_top _ name)
  | child q old =>
    rw [Place.relabel_child] at heq
    obtain ⟨habove, hname⟩ := Place.child_inj heq
    -- Its folder was one of the old tree too, so it is the one that is at the same new place.
    have hsame : q = p := h.injective (hproper q old e hq).2 hp habove
    rw [hsame] at hq hname
    exact ⟨old, hq, hname⟩

theorem at?_child (h : Renamed ρ t t') (hproper : t.Proper) {p : Place}
    (hp : t.at? p = some .folder) (hkept : ∀ name, ρ p name = name) (name : OsString) :
    t'.at? ((p.child name).relabel ρ) = t.at? (p.child name) := by
  refine Option.ext fun e => ⟨fun he => ?_, h.at?_relabel⟩
  rw [Place.relabel_child, hkept] at he
  obtain ⟨old, hold, hname⟩ := h.exists_child hproper hp he
  rw [hkept] at hname
  rwa [hname] at hold

theorem walk_eq_ok (h : Renamed ρ t t') {p q : Place} {names : List OsString}
    (hkeeps : t.keeps ρ p names) (hwalk : t.walk p names = .ok q) :
    t'.walk (p.relabel ρ) names = .ok (q.relabel ρ) := by
  induction names generalizing p with
  | nil =>
    cases hwalk
    rfl
  | cons name names ih =>
    rw [walk] at hwalk
    rw [keeps, Bool.and_eq_true, beq_iff_eq] at hkeeps
    obtain ⟨hname, hrest⟩ := hkeeps
    cases hstep : t.step p name with
    | error cause => simp [hstep] at hwalk
    | ok next =>
      rw [hstep] at hwalk hrest
      have hfolder := folder_of_step hstep
      have hstep' := step_relabel ((h.at?_relabel hfolder).trans hfolder.symm) hname
      rw [hstep, Except.map] at hstep'
      rw [walk, hstep']
      exact ih hrest hwalk

/-- Below a folder where no name changes any more, every way that does not go up leads to what it led
to, or fails as it did. -/
theorem walk_eq (h : Renamed ρ t t') (hproper : t.Proper) {p : Place} {names : List OsString}
    (hkept : ∀ q name, p.isAbove q → ρ q name = name) (hat : t'.at? (p.relabel ρ) = t.at? p)
    (hup : Path.up ∉ names) :
    t'.walk (p.relabel ρ) names = (t.walk p names).map (Place.relabel ρ) ∧
      ∀ q, t.walk p names = .ok q → t'.at? (q.relabel ρ) = t.at? q := by
  -- On the way both trees have the same where one stands, and all names below are kept.
  induction names generalizing p with
  | nil =>
    refine ⟨rfl, fun q hq => ?_⟩
    cases hq
    exact hat
  | cons name names ih =>
    have hname : name ≠ Path.up := fun heq => hup (heq ▸ List.mem_cons_self)
    have hnames : Path.up ∉ names := fun hmem => hup (List.mem_cons_of_mem name hmem)
    have hstep := step_relabel hat (hkept p name (Place.isAbove_self p))
    rw [walk, walk, hstep]
    cases hnext : t.step p name with
    | error cause => exact ⟨rfl, fun q hq => by contradiction⟩
    | ok next =>
      have hfolder := folder_of_step hnext
      have hbelow := ih (p := p.child name)
        (fun q other habove => hkept q other (Place.isAbove_of_child habove))
        (h.at?_child hproper hfolder (fun other => hkept p other (Place.isAbove_self p)) name) hnames
      obtain ⟨-, hstay⟩ | ⟨hgoesUp, -⟩ | ⟨-, hfurther⟩ := step_cases hnext
      · rw [hstay]
        exact ih hkept hat hnames
      · exact absurd hgoesUp hname
      · rw [hfurther]
        exact hbelow

/-- The path of a folder leads to it still, if its way goes by names that do not change. -/
theorem resolve_eq_ok (h : Renamed ρ t t') {root : Path} {place : Place}
    (hroot : t.resolve root = .ok place) (hfolder : t.at? place = some .folder)
    (hkeeps : t.keeps ρ (t.origin root) root.parts) :
    t'.resolve root = .ok (place.relabel ρ) := by
  obtain ⟨hraw, hnul, hlength, -⟩ := resolve_eq_ok_iff.mp hroot
  have horigin : t'.origin root = (t.origin root).relabel ρ := by
    rw [origin, origin]
    split
    · rfl
    · exact h.here
  have hparts := h.walk_eq_ok hkeeps (walk_parts hroot)
  refine resolve_eq_ok_iff.mpr ⟨hraw, hnul, hlength, ?_⟩
  rw [walk_append, horigin, hparts]
  split
  · simp [Except.bind, walk, step, h.at?_relabel hfolder]
  · rfl

/-- What is below a renamed folder is there under the folder's new name. The two paths may lead to the
folder by different ways. -/
theorem fetch_below (h : Renamed ρ t t') (hproper : t.Proper) {root : Path} (root' file : Path)
    {place : Place} {name : OsString} (hroot : t.resolve root = .ok place)
    (hroot' : t'.resolve root' = .ok (place.relabel ρ)) (hfolder : t.at? place = some .folder)
    (hname : t.at? (place.child name) = some .folder) (hnew : Ordinary (ρ place name))
    (hkept : ∀ q other, (place.child name).isAbove q → ρ q other = other)
    (hfile : file.isAbsolute = false) (hup : Path.up ∉ file.parts)
    (hlength : (root / (⟨name⟩ : Path) / file).raw.size ≤ pathLimit ↔
      (root' / (⟨ρ place name⟩ : Path) / file).raw.size ≤ pathLimit) :
    t'.fetch (root' / ⟨ρ place name⟩ / file) = t.fetch (root / ⟨name⟩ / file) := by
  have hold : Ordinary name := (hproper place name _ hname).1
  have hsteps : Path.up ∉ file.stepsBelow := by
    rw [Path.stepsBelow, List.mem_append, not_or]
    refine ⟨hup, ?_⟩
    split <;> decide
  have hat := (h.at?_relabel hname).trans hname.symm
  obtain ⟨hwalk, hthere⟩ := h.walk_eq hproper hkept hat hsteps
  rw [Place.relabel_child] at hwalk
  rw [fetch, fetch, resolve_below hroot hfolder hold hfile,
    resolve_below hroot' (h.at?_relabel hfolder) hnew hfile, hwalk]
  cases file.raw.hasNul with
  | true => rfl
  | false =>
    by_cases hlong : pathLimit < (root / (⟨name⟩ : Path) / file).raw.size
    · have hlong' := Nat.not_le.mp (mt hlength.mpr (Nat.not_le.mpr hlong))
      simp [hlong, hlong']
    · have hlong' := Nat.not_lt.mpr (hlength.mp (Nat.not_lt.mp hlong))
      cases hq : t.walk (place.child name) file.stepsBelow with
      | error cause => simp [hlong, hlong', Except.map]
      | ok q => simp [hlong, hlong', Except.map, hthere q hq]

end Renamed
end
end FileTree
end SweepReport
