import Mathlib.Data.List.Nodup
import SweepReport.FileTree

/-! What a folder lists. A listing has the entries that stand one name below the folder, each once;
which of two orders the system lists them in shows nowhere else. -/
namespace SweepReport

theorem Place.nameIn?_eq_some_iff {folder p : Place} {name : OsString} :
    folder.nameIn? p = some name ↔ p = folder.child name := by
  constructor
  · intro h
    have hparent : p.parent = folder := by
      by_contra hne
      simp [nameIn?, hne] at h
    rw [nameIn?, if_pos hparent] at h
    refine eq_of_names ?_
    cases hn : p.names with
    | nil => simp [hn] at h
    | cons x xs =>
      rw [hn, List.head?_cons, Option.some.injEq] at h
      simp [← hparent, parent, child, hn, h]
  · intro h
    rw [h, nameIn?_child]

theorem Place.child_ne_top (p : Place) (name : OsString) : p.child name ≠ .top := by
  intro h
  have hdepth := congrArg Place.depth h
  simp [child, top, ofNames] at hdepth

namespace FileTree

theorem find?_eq_some_iff {es : List (Place × Entry)} (h : (es.map Prod.fst).Nodup) {p : Place}
    {e : Entry} : find? p es = some e ↔ (p, e) ∈ es := by
  induction es with
  | nil => simp [find?]
  | cons d es ih =>
    obtain ⟨q, d⟩ := d
    obtain ⟨hq, hes⟩ := List.nodup_cons.mp h
    by_cases hp : q = p
    · subst hp
      have hnot : (q, e) ∉ es := fun hmem => hq (List.mem_map.mpr ⟨(q, e), hmem, rfl⟩)
      simp [find?, hnot, eq_comm]
    · simp [find?, hp, ih hes, Ne.symm hp]

theorem mem_list_iff {t : FileTree} {root : Path} {entries : List (OsString × Entry)}
    (h : t.list root = .ok entries) :
    ∃ place, t.resolve root = .ok place ∧ t.at? place = some .folder ∧
      ∀ name e, (name, e) ∈ entries ↔ t.at? (place.child name) = some e := by
  unfold list at h
  split at h
  · contradiction
  · rename_i place hplace
    split at h
    · contradiction
    · contradiction
    · rename_i hfolder
      cases h
      refine ⟨place, hplace, hfolder, fun name e => ?_⟩
      rw [at?, if_neg (place.child_ne_top name), find?_eq_some_iff t.distinct, List.mem_filterMap]
      simp only [Option.map_eq_some_iff, Place.nameIn?_eq_some_iff, Prod.mk.injEq, Prod.exists]
      constructor
      · rintro ⟨p, d, hmem, x, hp, hx, hd⟩
        rw [← hx, ← hd, ← hp]
        exact hmem
      · intro hmem
        exact ⟨_, e, hmem, name, rfl, rfl, rfl⟩

/-- The same entries, which the system may list in another order. -/
structure Reordered (t t' : FileTree) : Prop where
  perm : t.entries.Perm t'.entries
  here : t.here = t'.here

namespace Reordered
variable {t t' : FileTree}

theorem at?_eq (h : Reordered t t') (p : Place) : t.at? p = t'.at? p := by
  unfold at?
  split
  · rfl
  · refine Option.ext fun e => ?_
    rw [find?_eq_some_iff t.distinct, find?_eq_some_iff t'.distinct, h.perm.mem_iff]

theorem step_eq (h : Reordered t t') (p : Place) (name : OsString) :
    t.step p name = t'.step p name := by
  rw [step, step, h.at?_eq]

theorem walk_eq (h : Reordered t t') (p : Place) (names : List OsString) :
    t.walk p names = t'.walk p names := by
  induction names generalizing p with
  | nil => rfl
  | cons name names ih =>
    rw [walk, walk, h.step_eq]
    cases t'.step p name with
    | error e => rfl
    | ok next => exact ih next

theorem resolve_eq (h : Reordered t t') (p : Path) : t.resolve p = t'.resolve p := by
  simp only [resolve, origin, h.here, h.walk_eq]

theorem fetch_eq (h : Reordered t t') (p : Path) : t.fetch p = t'.fetch p := by
  simp only [fetch, h.resolve_eq, h.at?_eq]

theorem list_perm (h : Reordered t t') (p : Path) :
    (∃ cause, t.list p = .error cause ∧ t'.list p = .error cause) ∨
      ∃ es es', t.list p = .ok es ∧ t'.list p = .ok es' ∧ es.Perm es' := by
  simp only [list, h.resolve_eq, h.at?_eq]
  cases t'.resolve p with
  | error e => exact .inl ⟨e, rfl, rfl⟩
  | ok place =>
    dsimp only
    cases t'.at? place with
    | none => exact .inl ⟨.notFound, rfl, rfl⟩
    | some e =>
      cases e with
      | file content => exact .inl ⟨.notFolder, rfl, rfl⟩
      | folder => exact .inr ⟨_, _, rfl, rfl, h.perm.filterMap _⟩

end Reordered
end FileTree
end SweepReport
