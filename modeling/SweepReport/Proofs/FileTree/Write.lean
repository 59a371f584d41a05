import SweepReport.Proofs.FileTree.Proper

/-! What was written is there to be read, under the path it was written to: writing leaves the folders
of the way as they are. -/
namespace SweepReport.FileTree
variable {t t' : FileTree}

theorem ne_top_of_ne_folder {place : Place} (hfile : t.at? place ≠ some .folder) : place ≠ .top := by
  rintro rfl
  exact hfile (at?_top t)

/-- A folder stays one, and so does the working folder. -/
structure KeepsFolders (t t' : FileTree) : Prop where
  here : t'.here = t.here
  folder : ∀ p, t.at? p = some .folder → t'.at? p = some .folder

theorem keepsFolders_set {place : Place} (hfile : t.at? place ≠ some .folder) (e : Entry) :
    t.KeepsFolders (t.set place e) := by
  refine ⟨rfl, fun p hp => ?_⟩
  have hne : p ≠ place := by
    rintro rfl
    exact hfile hp
  rw [at?_set t (ne_top_of_ne_folder hfile), if_neg hne, hp]

namespace KeepsFolders
variable (h : t.KeepsFolders t')
include h

theorem step {p next : Place} {name : OsString} (hstep : t.step p name = .ok next) :
    t'.step p name = .ok next := by
  have hfolder := folder_of_step hstep
  rwa [FileTree.step, h.folder p hfolder, ← hfolder]

theorem walk {p next : Place} {names : List OsString} (hwalk : t.walk p names = .ok next) :
    t'.walk p names = .ok next := by
  induction names generalizing p with
  | nil => exact hwalk
  | cons name names ih =>
    rw [FileTree.walk] at hwalk ⊢
    split at hwalk
    · contradiction
    · rename_i q hstep
      rw [h.step hstep]
      exact ih hwalk

theorem origin (p : Path) : t'.origin p = t.origin p := by
  rw [FileTree.origin, h.here, FileTree.origin]

theorem resolve {p : Path} {next : Place} (hresolve : t.resolve p = .ok next) :
    t'.resolve p = .ok next := by
  obtain ⟨hraw, hnul, hshort, hwalk⟩ := resolve_eq_ok_iff.mp hresolve
  rw [← h.origin] at hwalk
  exact resolve_eq_ok_iff.mpr ⟨hraw, hnul, hshort, h.walk hwalk⟩

end KeepsFolders

theorem fetch_write {p : Path} {content : ByteArray} (h : t.write p content = .ok t') :
    t'.fetch p = .ok (.file content) := by
  obtain ⟨place, hresolve, hfile, rfl⟩ := write_eq_ok_iff.mp h
  rw [fetch, (keepsFolders_set hfile _).resolve hresolve]
  dsimp only
  rw [at?_set t (ne_top_of_ne_folder hfile), if_pos rfl]
  rfl

theorem readText_write {p : Path} {s : String} (h : t.write p s.toUTF8 = .ok t') :
    t'.readText p = .ok s := by
  have hdecode : String.fromUTF8? s.toUTF8 = some s := dif_pos s.isValidUTF8
  rw [readText, fetch_write h]
  dsimp only
  rw [hdecode]
  rfl

end SweepReport.FileTree
