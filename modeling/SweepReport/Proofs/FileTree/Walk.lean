import SweepReport.Fallible
import SweepReport.Proofs.FileTree.Listing
import SweepReport.Proofs.Text.OsString

/-! Ways through a file tree. The path of a folder followed by a name leads one step further than the
path of the folder. -/
namespace SweepReport

namespace Path

@[simp] theorem hasNul_raw_iff {p : Path} : p.raw.hasNul ↔ 0 ∈ p.bytes := OsString.hasNul_iff

theorem splitSlash_append (part xs ys : List UInt8) :
    splitSlash part (xs ++ slash :: ys) = splitSlash part xs ++ splitSlash [] ys := by
  induction xs generalizing part with
  | nil => simp [splitSlash]
  | cons c xs ih =>
    by_cases hc : c = slash
    · simp [splitSlash, hc, ih]
    · simp [splitSlash, hc, ih]

theorem splitSlash_of_noSlash {xs : List UInt8} (h : slash ∉ xs) (part : List UInt8) :
    splitSlash part xs = [part.reverse ++ xs] := by
  induction xs generalizing part with
  | nil => simp [splitSlash]
  | cons c xs ih =>
    have hc : c ≠ slash := fun heq => h (by simp [heq])
    have hxs : slash ∉ xs := fun hmem => h (List.mem_cons_of_mem c hmem)
    simp [splitSlash, hc, ih hxs]

theorem isAbsolute_of_prefix {p q : Path} (hp : p.raw ≠ "") (h : p.bytes <+: q.bytes) :
    q.isAbsolute = p.isAbsolute := by
  obtain ⟨rest, hrest⟩ := h
  rw [isAbsolute, isAbsolute, ← hrest]
  cases hc : p.bytes with
  | nil => exact absurd (OsString.bytes_eq_nil_iff.mp hc) hp
  | cons c cs => rfl

/-- The bytes of the way to what is below a folder, with one slash between them. -/
theorem bytes_div {p q : Path} (hp : p.raw ≠ "") (hq : q.isAbsolute = false) :
    (p / q).bytes = p.bytes ++ (if p.endsInSlash then [] else [slash]) ++ q.bytes := by
  change (p.join q).bytes = _
  have hempty : p.raw.isEmpty = false := OsString.isEmpty_eq_false hp
  unfold join
  rw [hq, hempty]
  cases p.endsInSlash <;> simp [bytes, slash]

section
variable {dir file : Path}

theorem bytes_below (hdir : dir.raw ≠ "") (hslash : dir.endsInSlash = false)
    (hfile : file.isAbsolute = false) : (dir / file).bytes = dir.bytes ++ slash :: file.bytes := by
  simp [bytes_div hdir hfile, hslash]

theorem parts_below (hdir : dir.raw ≠ "") (hslash : dir.endsInSlash = false)
    (hfile : file.isAbsolute = false) : (dir / file).parts = dir.parts ++ file.parts := by
  simp [parts, bytes_below hdir hslash hfile, splitSlash_append]

theorem endsInSlash_below (hdir : dir.raw ≠ "") (hslash : dir.endsInSlash = false)
    (hfile : file.isAbsolute = false) :
    (dir / file).endsInSlash = (file.raw.isEmpty || file.endsInSlash) := by
  rw [endsInSlash, bytes_below hdir hslash hfile, endsInSlash, OsString.isEmpty, ← bytes]
  cases file.bytes <;> simp

theorem isAbsolute_below (hdir : dir.raw ≠ "") (hslash : dir.endsInSlash = false)
    (hfile : file.isAbsolute = false) : (dir / file).isAbsolute = dir.isAbsolute :=
  isAbsolute_of_prefix hdir ⟨_, (bytes_below hdir hslash hfile).symm⟩

end

def stepsBelow (file : Path) : List OsString :=
  file.parts ++ if file.raw.isEmpty || file.endsInSlash then [Path.here] else []

end Path

/-- A name that an entry of a folder can have. -/
structure Ordinary (name : OsString) : Prop where
  noSlash : Path.slash ∉ name.bytes
  noNul : 0 ∉ name.bytes
  nonempty : name ≠ ""
  notHere : name ≠ Path.here
  notUp : name ≠ Path.up
  short : name.size ≤ FileTree.nameLimit

namespace Ordinary
variable {name : OsString} {root : Path}

theorem bytes_ne_nil (h : Ordinary name) : name.bytes ≠ [] := by
  intro hnil
  exact h.nonempty (OsString.bytes_eq_nil_iff.mp hnil)

theorem not_isAbsolute (h : Ordinary name) : (⟨name⟩ : Path).isAbsolute = false := by
  rw [Path.isAbsolute, beq_eq_false_iff_ne]
  intro hhead
  exact h.noSlash (List.mem_of_mem_head? hhead)

/-- The bytes of the way to the name: those of the folder, with one slash between them. -/
theorem bytes_div (h : Ordinary name) (hroot : root.raw ≠ "") :
    (root / (⟨name⟩ : Path)).bytes =
      root.bytes ++ (if root.endsInSlash then [] else [Path.slash]) ++ name.bytes :=
  Path.bytes_div hroot h.not_isAbsolute

theorem parts_div (h : Ordinary name) (hroot : root.raw ≠ "") :
    (root / (⟨name⟩ : Path)).parts = root.parts ++ [name] := by
  have hname : (name.bytes.isEmpty) = false := by
    simpa using h.bytes_ne_nil
  have hlast : Path.splitSlash [] name.bytes = [name.bytes] :=
    Path.splitSlash_of_noSlash h.noSlash []
  rw [Path.parts, h.bytes_div hroot]
  cases hslash : root.endsInSlash with
  | false =>
    simp [Path.splitSlash_append, hlast, hname, Path.parts]
  | true =>
    obtain ⟨init, hinit⟩ : ∃ init, root.bytes = init ++ [Path.slash] := by
      rw [Path.endsInSlash, beq_iff_eq] at hslash
      exact List.getLast?_eq_some_iff.mp hslash
    have hsplit : Path.splitSlash [] (init ++ [Path.slash]) = Path.splitSlash [] init ++ [[]] := by
      rw [Path.splitSlash_append]
      rfl
    simp [Path.parts, hinit, hsplit, Path.splitSlash_append, hlast, hname]

theorem endsInSlash_div (h : Ordinary name) (hroot : root.raw ≠ "") :
    (root / (⟨name⟩ : Path)).endsInSlash = false := by
  rw [Path.endsInSlash, h.bytes_div hroot, beq_eq_false_iff_ne, List.getLast?_append]
  intro hlast
  cases hname : name.bytes.getLast? with
  | none => exact h.bytes_ne_nil (List.getLast?_eq_none_iff.mp hname)
  | some c =>
    rw [hname, Option.some_or, Option.some.injEq] at hlast
    exact h.noSlash (hlast ▸ List.mem_of_getLast? hname)

theorem isAbsolute_div (h : Ordinary name) (hroot : root.raw ≠ "") :
    (root / (⟨name⟩ : Path)).isAbsolute = root.isAbsolute :=
  Path.isAbsolute_of_prefix hroot
    ⟨_, by rw [h.bytes_div hroot, List.append_assoc]⟩

theorem raw_div_ne_empty (h : Ordinary name) (hroot : root.raw ≠ "") :
    (root / (⟨name⟩ : Path)).raw ≠ "" := by
  intro hempty
  have hbytes := h.bytes_div hroot
  rw [Path.bytes, OsString.bytes_eq_nil_iff.mpr hempty, eq_comm, List.append_eq_nil_iff] at hbytes
  exact h.bytes_ne_nil hbytes.2

theorem size_div (h : Ordinary name) (hroot : root.raw ≠ "") :
    (root / (⟨name⟩ : Path)).raw.size =
      root.raw.size + (if root.endsInSlash then 0 else 1) + name.size := by
  rw [OsString.size, ← Path.bytes, h.bytes_div hroot, List.length_append, List.length_append]
  cases root.endsInSlash <;> rfl

theorem noNul_div (h : Ordinary name) (hroot : root.raw ≠ "") (hnul : 0 ∉ root.bytes) :
    0 ∉ (root / (⟨name⟩ : Path)).bytes := by
  have hname := h.noNul
  rw [h.bytes_div hroot]
  cases root.endsInSlash <;> simp_all [Path.slash]

end Ordinary

/-- The second path goes the way of the first; it may have more slashes between the names. -/
structure SameWay (p q : Path) : Prop where
  parts : q.parts = p.parts
  absolute : q.isAbsolute = p.isAbsolute
  nonempty : q.raw ≠ ""
  noNul : 0 ∉ q.bytes

theorem SameWay.div {p q : Path} {name : OsString} (h : SameWay p q) (hp : p.raw ≠ "")
    (hname : Ordinary name) : SameWay (p / ⟨name⟩) (q / ⟨name⟩) where
  parts := by rw [hname.parts_div hp, hname.parts_div h.nonempty, h.parts]
  absolute := by rw [hname.isAbsolute_div hp, hname.isAbsolute_div h.nonempty, h.absolute]
  nonempty := hname.raw_div_ne_empty h.nonempty
  noNul := hname.noNul_div h.nonempty h.noNul

namespace FileTree
variable {t : FileTree}

theorem walk_append (place : Place) (xs ys : List OsString) :
    t.walk place (xs ++ ys) = (t.walk place xs).bind fun next => t.walk next ys := by
  induction xs generalizing place with
  | nil => rfl
  | cons name xs ih =>
    simp only [List.cons_append, walk]
    cases t.step place name with
    | error e => rfl
    | ok next => exact ih next

theorem step_ordinary {place : Place} {name : OsString} (hfolder : t.at? place = some .folder)
    (h : Ordinary name) : t.step place name = .ok (place.child name) := by
  have hshort := Nat.not_lt.mpr h.short
  simp [step, hfolder, h.notHere, h.notUp, hshort]

theorem walk_here {place next : Place} (h : t.walk place [Path.here] = .ok next) : next = place := by
  simp only [walk, step] at h
  cases hat : t.at? place with
  | none => simp [hat] at h
  | some e => cases e <;> simp_all

theorem resolve_eq_ok_iff {p : Path} {place : Place} :
    t.resolve p = .ok place ↔ p.raw ≠ "" ∧ 0 ∉ p.bytes ∧
      p.raw.size ≤ pathLimit ∧
      t.walk (t.origin p) (p.parts ++ if p.endsInSlash then [Path.here] else []) = .ok place := by
  unfold resolve
  split
  · simp_all
  · split
    · simp_all
    · split
      · rename_i hlong
        simp [Nat.not_le.mpr hlong]
      · simp_all

theorem resolve_eq_of_sameWay {p q : Path} {place : Place} (h : SameWay p q)
    (hslash : q.endsInSlash = p.endsInSlash) (hlength : q.raw.size ≤ pathLimit)
    (hresolve : t.resolve p = .ok place) : t.resolve q = .ok place := by
  obtain ⟨-, -, -, hwalk⟩ := resolve_eq_ok_iff.mp hresolve
  refine resolve_eq_ok_iff.mpr ⟨h.nonempty, h.noNul, hlength, ?_⟩
  rwa [h.parts, hslash, origin, h.absolute]

theorem walk_parts {root : Path} {place : Place} (h : t.resolve root = .ok place) :
    t.walk (t.origin root) root.parts = .ok place := by
  obtain ⟨-, -, -, hwalk⟩ := resolve_eq_ok_iff.mp h
  rw [walk_append, bind_eq_ok_iff] at hwalk
  obtain ⟨next, hnext, hhere⟩ := hwalk
  split at hhere
  · rw [walk_here hhere, hnext]
  · cases hhere
    exact hnext

theorem resolve_div {root : Path} {place : Place} {name : OsString}
    (hroot : t.resolve root = .ok place) (hfolder : t.at? place = some .folder)
    (h : Ordinary name) (hlength : (root / (⟨name⟩ : Path)).raw.size ≤ pathLimit) :
    t.resolve (root / ⟨name⟩) = .ok (place.child name) := by
  obtain ⟨hraw, hnul, -, -⟩ := resolve_eq_ok_iff.mp hroot
  have horigin : t.origin (root / ⟨name⟩) = t.origin root := by
    rw [origin, h.isAbsolute_div hraw, origin]
  refine resolve_eq_ok_iff.mpr
    ⟨h.raw_div_ne_empty hraw, h.noNul_div hraw hnul, hlength, ?_⟩
  rw [horigin, h.parts_div hraw, h.endsInSlash_div hraw, List.append_assoc, walk_append,
    walk_parts hroot]
  simp [Except.bind, walk, step_ordinary hfolder h]

/-- The way to a file below a folder of a root. -/
theorem resolve_below {root file : Path} {place : Place} {name : OsString}
    (hroot : t.resolve root = .ok place) (hfolder : t.at? place = some .folder)
    (h : Ordinary name) (hfile : file.isAbsolute = false) :
    t.resolve (root / ⟨name⟩ / file) =
      if file.raw.hasNul then .error .nul
      else if pathLimit < (root / (⟨name⟩ : Path) / file).raw.size then .error .nameTooLong
      else t.walk (place.child name) file.stepsBelow := by
  obtain ⟨hraw, hnul, -, -⟩ := resolve_eq_ok_iff.mp hroot
  have hdir := h.raw_div_ne_empty hraw
  have hslash := h.endsInSlash_div hraw
  have hbytes := Path.bytes_below hdir hslash hfile
  have hempty : (root / (⟨name⟩ : Path) / file).raw.isEmpty = false := by
    rw [OsString.isEmpty, ← Path.bytes, hbytes]
    simp
  have hcontains : (root / (⟨name⟩ : Path) / file).raw.hasNul = file.raw.hasNul := by
    have hdirnul := h.noNul_div hraw hnul
    rw [Bool.eq_iff_iff, Path.hasNul_raw_iff, Path.hasNul_raw_iff, hbytes, List.mem_append,
      List.mem_cons, or_iff_right hdirnul, or_iff_right (by decide)]
  have horigin : t.origin (root / ⟨name⟩ / file) = t.origin root := by
    rw [origin, Path.isAbsolute_below hdir hslash hfile, h.isAbsolute_div hraw, origin]
  rw [resolve, hempty, hcontains, horigin, Path.parts_below hdir hslash hfile,
    Path.endsInSlash_below hdir hslash hfile, h.parts_div hraw, List.append_assoc,
    List.append_assoc, walk_append, walk_parts hroot]
  simp [Except.bind, walk, step_ordinary hfolder h, Path.stepsBelow]

/-- A name is that of a folder where the entry below the folder is one. -/
theorem isFolder_div_iff {root : Path} {place : Place} {name : OsString}
    (hroot : t.resolve root = .ok place) (hfolder : t.at? place = some .folder)
    (h : Ordinary name) (hlength : (root / (⟨name⟩ : Path)).raw.size ≤ pathLimit) :
    t.isFolder (root / ⟨name⟩) ↔ t.at? (place.child name) = some .folder := by
  rw [isFolder, fetch, resolve_div hroot hfolder h hlength]
  dsimp only
  cases t.at? (place.child name) with
  | none => simp
  | some e => cases e <;> simp [Entry.isFolder]

theorem resolve_of_isFolder {p : Path} (h : t.isFolder p) :
    ∃ place, t.resolve p = .ok place ∧ t.at? place = some .folder := by
  rw [isFolder, fetch] at h
  cases hresolve : t.resolve p with
  | error cause => simp [hresolve] at h
  | ok place =>
    refine ⟨place, rfl, ?_⟩
    rw [hresolve] at h
    dsimp only at h
    cases hat : t.at? place with
    | none => simp [hat] at h
    | some e =>
      cases e with
      | folder => rfl
      | file content => simp [hat, Entry.isFolder] at h

end FileTree
end SweepReport
