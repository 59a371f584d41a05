import Mathlib.Data.List.Sort
import SweepReport.Collection
import SweepReport.Proofs.FileTree.Walk

/-! The configuration folders of a result root: those that its listing names, each once, ascending by
name. -/
namespace SweepReport

theorem FileTree.nodup_list {t : FileTree} {root : Path} {entries : List (OsString × Entry)}
    (h : t.list root = .ok entries) : (entries.map Prod.fst).Nodup := by
  unfold FileTree.list at h
  split at h
  · contradiction
  · rename_i place _
    split at h <;> cases h
    have hdistinct : ((t.entries.map Prod.fst).filterMap place.nameIn?).Nodup := by
      refine t.distinct.filterMap fun p q name hp hq => ?_
      rw [Place.nameIn?_eq_some_iff.mp hp, Place.nameIn?_eq_some_iff.mp hq]
    rw [List.map_filterMap]
    convert hdistinct using 1
    rw [List.filterMap_map]
    refine List.filterMap_congr fun e _ => ?_
    simp [Function.comp_def]

/-- A name that the root lists, of a folder that is not the summary. -/
def Configures (t : FileTree) (root : Path) (name : OsString) : Prop :=
  ∃ entries, t.list root = .ok entries ∧ name ∈ entries.map Prod.fst ∧
    t.isFolder (root / ⟨name⟩) ∧ name ≠ summaryDir

section
variable {t : FileTree} {root : Path} {entries : List (OsString × Entry)}

theorem nodup_configurationNames (h : t.list root = .ok entries) :
    (configurationNames t root entries).Nodup :=
  (List.mergeSort_perm _ _).nodup_iff.mpr ((FileTree.nodup_list h).filter _)

theorem configures_iff (h : t.list root = .ok entries) {name : OsString} :
    Configures t root name ↔
      name ∈ entries.map Prod.fst ∧ t.isFolder (root / ⟨name⟩) ∧ name ≠ summaryDir := by
  constructor
  · intro hconfigures
    obtain ⟨found, hf, hn⟩ := hconfigures
    rw [h, Except.ok.injEq] at hf
    exact hf ▸ hn
  · exact fun hn => ⟨entries, h, hn⟩

theorem mem_configurationNames (h : t.list root = .ok entries) {name : OsString} :
    name ∈ configurationNames t root entries ↔ Configures t root name := by
  rw [configures_iff h, configurationNames, List.mem_mergeSort, List.mem_filter]
  simp [isConfiguration]

theorem ascending_configurationNames (h : t.list root = .ok entries) :
    (configurationNames t root entries).Pairwise (· < ·) := by
  have hsorted : (configurationNames t root entries).Pairwise
      fun a b => (compare a b).isLE = true := by
    refine List.pairwise_mergeSort (fun a b c => Std.TransCmp.isLE_trans) (fun a b => ?_) _
    cases hab : compare a b with
    | lt => rfl
    | eq => rfl
    | gt => simp [Std.OrientedCmp.gt_iff_lt.mp hab]
  refine (hsorted.and (nodup_configurationNames h)).imp ?_
  intro a b hab
  cases hcompare : compare a b with
  | lt => exact hcompare
  | eq => exact absurd (Std.LawfulEqOrd.eq_of_compare hcompare) hab.2
  | gt => simp [hcompare] at hab

theorem configurationDirs_eq_ok_iff {dirs : List Path} :
    configurationDirs t root = .ok dirs ↔
      ∃ entries, t.list root = .ok entries ∧
        dirs = (configurationNames t root entries).map fun name => root / ⟨name⟩ := by
  unfold configurationDirs
  cases h : t.list root with
  | error e => simp
  | ok entries => simp [eq_comm]

/-- For a name and a path that are not too long, the configuration folders are the folders that are
listed, but for the summary. -/
theorem configures_iff_listed (h : t.list root = .ok entries) {name : OsString}
    (hname : Ordinary name)
    (hlength : (root / (⟨name⟩ : Path)).raw.size ≤ FileTree.pathLimit) :
    Configures t root name ↔ (name, .folder) ∈ entries ∧ name ≠ summaryDir := by
  obtain ⟨place, hplace, hfolder, hmem⟩ := FileTree.mem_list_iff h
  have hstep := FileTree.isFolder_div_iff hplace hfolder hname hlength
  rw [configures_iff h, hmem, ← hstep]
  constructor
  · exact fun hn => hn.2
  · intro hn
    refine ⟨List.mem_map.mpr ⟨(name, .folder), ?_, rfl⟩, hn⟩
    exact (hmem name .folder).mpr (hstep.mp hn.1)

/-- The configuration folders of a root are the folders in it, but for the summary and for those whose
path is too long. -/
theorem configures_iff_at? {place : Place} {name : OsString} (hroot : t.resolve root = .ok place)
    (hfolder : t.at? place = some .folder) (hname : Ordinary name) :
    Configures t root name ↔ t.at? (place.child name) = some .folder ∧ name ≠ summaryDir ∧
      (root / (⟨name⟩ : Path)).raw.size ≤ FileTree.pathLimit := by
  have hlist : ∃ entries, t.list root = .ok entries := by
    simp [FileTree.list, hroot, hfolder]
  obtain ⟨entries, hentries⟩ := hlist
  constructor
  · intro h
    obtain ⟨-, hisFolder, hsummary⟩ := (configures_iff hentries).mp h
    obtain ⟨q, hq, -⟩ := FileTree.resolve_of_isFolder hisFolder
    have hlength := (FileTree.resolve_eq_ok_iff.mp hq).2.2.1
    exact ⟨(FileTree.isFolder_div_iff hroot hfolder hname hlength).mp hisFolder, hsummary, hlength⟩
  · intro h
    obtain ⟨hat, hsummary, hlength⟩ := h
    obtain ⟨q, hq, -, hmem⟩ := FileTree.mem_list_iff hentries
    rw [hroot, Except.ok.injEq] at hq
    exact (configures_iff_listed hentries hname hlength).mpr
      ⟨(hmem name .folder).mpr (hq ▸ hat), hsummary⟩

theorem Configures.exists_at? {place : Place} {name : OsString} (h : Configures t root name)
    (hroot : t.resolve root = .ok place) :
    ∃ e, t.at? (place.child name) = some e := by
  obtain ⟨entries, hentries, hname, -⟩ := h
  obtain ⟨q, hq, -, hmem⟩ := FileTree.mem_list_iff hentries
  rw [hroot, Except.ok.injEq] at hq
  obtain ⟨e, he, heq⟩ := List.mem_map.mp hname
  rw [hq]
  exact ⟨e.2, (hmem name e.2).mp (heq ▸ he)⟩

end
end SweepReport
