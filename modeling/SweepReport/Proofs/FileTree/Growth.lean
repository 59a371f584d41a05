import SweepReport.Proofs.FileTree.Write

/-! How making folders changes a file tree. New folders stand on the way to the folder that is asked
for, where nothing was before, and nothing else changes, even where the way cannot be made to its
end. -/
namespace SweepReport.FileTree
variable {t t' : FileTree} {place : Place} {names : List OsString}

/-- The place is come by when one goes along the names, at their end or before. -/
def OnWay (t : FileTree) (place : Place) (names : List OsString) (p : Place) : Prop :=
  ∃ way, way <+: names ∧ t.walk place way = .ok p

theorem OnWay.cons {p next : Place} {name : OsString} (hstep : t.step place name = .ok next)
    (h : t.OnWay next names p) : t.OnWay place (name :: names) p := by
  obtain ⟨way, hway, hwalk⟩ := h
  refine ⟨name :: way, List.cons_prefix_cons.mpr ⟨rfl, hway⟩, ?_⟩
  rw [walk, hstep]
  exact hwalk

theorem OnWay.keep {p : Place} (h : t.OnWay place names p) (hkeep : t.KeepsFolders t') :
    t'.OnWay place names p := by
  obtain ⟨way, hway, hwalk⟩ := h
  exact ⟨way, hway, hkeep.walk hwalk⟩

/-- From the first tree to the second nothing changes but for new folders on the way along the
names. -/
structure Grown (t : FileTree) (place : Place) (names : List OsString) (t' : FileTree) : Prop where
  here : t'.here = t.here
  only : ∀ p, t'.at? p = t.at? p ∨
    t.at? p = none ∧ t'.at? p = some .folder ∧ t'.OnWay place names p

namespace Grown

theorem refl (t : FileTree) (place : Place) (names : List OsString) : t.Grown place names t :=
  ⟨rfl, fun _ => .inl rfl⟩

theorem keepsFolders (h : t.Grown place names t') : t.KeepsFolders t' := by
  refine ⟨h.here, fun p hp => ?_⟩
  obtain hsame | ⟨hnone, -⟩ := h.only p
  · rw [hsame, hp]
  · rw [hp] at hnone
    contradiction

/-- The way goes through a folder that was made. -/
theorem made {next : Place} {name : OsString} (hstep : t.step place name = .ok next)
    (habsent : t.at? next = none) (h : (t.set next .folder).Grown next names t') :
    t.Grown place (name :: names) t' := by
  have hfree : t.at? next ≠ some .folder := by simp [habsent]
  have hkeeps := keepsFolders_set hfree .folder
  have hstep' := h.keepsFolders.step (hkeeps.step hstep)
  refine ⟨h.here.trans hkeeps.here, fun p => ?_⟩
  have hafter := h.only p
  rw [at?_set t (ne_top_of_ne_folder hfree)] at hafter
  by_cases hp : p = next
  · subst hp
    rw [if_pos rfl] at hafter
    have hfolder : t'.at? p = some .folder := hafter.elim id fun hmade => hmade.2.1
    exact .inr ⟨habsent, hfolder, OnWay.cons hstep' ⟨[], List.nil_prefix, rfl⟩⟩
  · rw [if_neg hp] at hafter
    obtain hsame | ⟨hnone, hfolder, hway⟩ := hafter
    · exact .inl hsame
    · exact .inr ⟨hnone, hfolder, hway.cons hstep'⟩

end Grown

end SweepReport.FileTree
