import SweepReport.FileTree.Edit
import SweepReport.Proofs.FileTree.Walk

/-! What every file tree is like. All that is in a tree is in a folder of the tree, under a name that an
entry can have: so it is at the start, and every edit keeps it so. -/
namespace SweepReport

namespace Path

theorem mem_splitSlash {part cs xs : List UInt8} (h : xs ∈ splitSlash part cs)
    (hpart : slash ∉ part) : slash ∉ xs ∧ ∀ c ∈ xs, c ∈ part ∨ c ∈ cs := by
  induction cs generalizing part with
  | nil =>
    rw [splitSlash, List.mem_singleton] at h
    simp [h, hpart]
  | cons c cs ih =>
    rw [splitSlash] at h
    by_cases hc : c = slash
    · rw [if_pos hc] at h
      cases List.mem_cons.mp h with
      | inl hfirst => simp_all
      | inr hrest =>
        obtain ⟨hslash, hfrom⟩ := ih hrest List.not_mem_nil
        exact ⟨hslash, fun d hd => .inr (List.mem_cons_of_mem c (by simpa using hfrom d hd))⟩
    · rw [if_neg hc] at h
      obtain ⟨hslash, hfrom⟩ := ih h (by simp [hpart, Ne.symm hc])
      refine ⟨hslash, fun d hd => ?_⟩
      have hd' := hfrom d hd
      simp only [List.mem_cons] at hd' ⊢
      tauto

theorem mem_parts {p : Path} {name : OsString} (h : name ∈ p.parts) :
    name ≠ "" ∧ Path.slash ∉ name.bytes ∧ ∀ c ∈ name.bytes, c ∈ p.bytes := by
  obtain ⟨xs, hxs, hname⟩ := List.mem_map.mp h
  obtain ⟨hsplit, hnonempty⟩ := List.mem_filter.mp hxs
  obtain ⟨hslash, hfrom⟩ := mem_splitSlash hsplit List.not_mem_nil
  subst hname
  refine ⟨fun hempty => ?_, hslash, fun c hc => by simpa using hfrom c hc⟩
  have hnil : xs = [] := OsString.bytes_eq_nil_iff.mpr hempty
  simp [hnil] at hnonempty

theorem exists_nonempty_piece {part : List UInt8} (h : part ≠ []) (cs : List UInt8) :
    ∃ xs ∈ splitSlash part cs, xs ≠ [] := by
  induction cs generalizing part with
  | nil => exact ⟨part.reverse, by simp [splitSlash], by simpa using h⟩
  | cons c cs ih =>
    rw [splitSlash]
    by_cases hc : c = slash
    · rw [if_pos hc]
      exact ⟨part.reverse, List.mem_cons_self, by simpa using h⟩
    · rw [if_neg hc]
      exact ih (List.cons_ne_nil c part)

theorem parts_ne_nil {p : Path} (hraw : p.raw ≠ "") (hrelative : p.isAbsolute = false) :
    p.parts ≠ [] := by
  cases hbytes : p.bytes with
  | nil => exact absurd (OsString.bytes_eq_nil_iff.mp hbytes) hraw
  | cons c cs =>
    have hc : c ≠ slash := by
      intro hslash
      simp [isAbsolute, hbytes, hslash] at hrelative
    obtain ⟨xs, hmem, hne⟩ := exists_nonempty_piece (List.cons_ne_nil c []) cs
    have hpiece : xs ∈ (splitSlash [] p.bytes).filter (!·.isEmpty) := by
      rw [hbytes, splitSlash, if_neg hc]
      exact List.mem_filter.mpr ⟨hmem, by simpa using hne⟩
    exact List.ne_nil_of_mem (List.mem_map_of_mem hpiece)

end Path

namespace Place

@[elab_as_elim]
theorem byChild {motive : Place → Prop} (top : motive top)
    (child : ∀ p name, motive p → motive (p.child name)) (p : Place) : motive p := by
  obtain ⟨names, depth, hdepth⟩ := p
  subst hdepth
  induction names with
  | nil => exact top
  | cons name names ih => exact child ⟨names, names.length, rfl⟩ name ih

theorem child_inj {p q : Place} {a b : OsString} (h : p.child a = q.child b) : p = q ∧ a = b := by
  obtain ⟨ha, hp⟩ := List.cons.inj (congrArg names h)
  exact ⟨eq_of_names hp, ha⟩

theorem child_ne_self (p : Place) (name : OsString) : p.child name ≠ p := by
  intro h
  have hdepth := congrArg depth h
  simp [child] at hdepth

theorem isAbove_iff {p q : Place} : p.isAbove q ↔ p.names <:+ q.names :=
  List.isSuffixOf_iff_suffix

theorem isAbove_self (p : Place) : p.isAbove p :=
  isAbove_iff.mpr (List.suffix_refl _)

theorem isAbove_child {p q : Place} (h : p.isAbove q) (name : OsString) : p.isAbove (q.child name) :=
  isAbove_iff.mpr ((isAbove_iff.mp h).trans (List.suffix_cons name q.names))

theorem isAbove_of_child {p q : Place} {name : OsString} (h : (p.child name).isAbove q) :
    p.isAbove q :=
  isAbove_iff.mpr ((List.suffix_cons name p.names).trans (isAbove_iff.mp h))

theorem not_child_isAbove (p : Place) (name : OsString) : ¬ (p.child name).isAbove p := by
  intro h
  have hlength := (isAbove_iff.mp h).length_le
  simp only [child, List.length_cons] at hlength
  omega

end Place

namespace FileTree

theorem at?_top (t : FileTree) : t.at? .top = some .folder := by
  rw [at?, if_pos rfl]

theorem at?_eq_some_iff {t : FileTree} {p : Place} {e : Entry} (hp : p ≠ .top) :
    t.at? p = some e ↔ (p, e) ∈ t.entries := by
  rw [at?, if_neg hp, find?_eq_some_iff t.distinct]

theorem folder_of_step {t : FileTree} {p next : Place} {name : OsString}
    (h : t.step p name = .ok next) : t.at? p = some .folder := by
  unfold step at h
  split at h
  · contradiction
  · contradiction
  · assumption

theorem step_cases {t : FileTree} {p next : Place} {name : OsString} (h : t.step p name = .ok next) :
    name = Path.here ∧ next = p ∨ name = Path.up ∧ next = p.parent ∨
      (name ≠ Path.here ∧ name ≠ Path.up ∧ name.size ≤ nameLimit) ∧ next = p.child name := by
  simp only [step, folder_of_step h] at h
  by_cases hhere : name = Path.here
  · rw [if_pos hhere, Except.ok.injEq] at h
    exact .inl ⟨hhere, h.symm⟩
  · by_cases hup : name = Path.up
    · rw [if_neg hhere, if_pos hup, Except.ok.injEq] at h
      exact .inr (.inl ⟨hup, h.symm⟩)
    · rw [if_neg hhere, if_neg hup] at h
      split at h
      · contradiction
      · rename_i hshort
        cases h
        exact .inr (.inr ⟨⟨hhere, hup, Nat.not_lt.mp hshort⟩, rfl⟩)

/-- What is in a tree is in a folder of the tree, under a name that an entry can have. -/
def Proper (t : FileTree) : Prop :=
  ∀ p name e, t.at? (p.child name) = some e → Ordinary name ∧ t.at? p = some .folder

def HasRoomAt (t : FileTree) (place : Place) : Prop :=
  t.at? place = some .folder ∨
    ∃ p name, place = p.child name ∧ Ordinary name ∧ t.at? p = some .folder

section
variable {t t' : FileTree}

theorem proper_of_entries (h : ∀ e ∈ t.entries, ∃ p name, e.1 = p.child name ∧ Ordinary name ∧
    t.at? p = some .folder) : t.Proper := by
  intro p name e he
  obtain ⟨q, other, hplace, hname, hq⟩ := h _ ((at?_eq_some_iff (p.child_ne_top name)).mp he)
  obtain ⟨hpq, hnames⟩ := Place.child_inj hplace
  exact ⟨hnames ▸ hname, hpq ▸ hq⟩

theorem proper_start : start.Proper :=
  proper_of_entries fun e he => by
    rw [List.mem_singleton.mp he]
    exact ⟨.top, "work", rfl, by constructor <;> decide, at?_top _⟩

theorem find?_put (place p : Place) (e : Entry) (es : List (Place × Entry)) :
    find? p (put place e es) = if p = place then some e else find? p es := by
  induction es with
  | nil => simp [put, find?, eq_comm]
  | cons d es ih =>
    obtain ⟨q, d⟩ := d
    rw [put]
    by_cases hq : q = place
    · by_cases hp : p = place
      · simp [find?, hq, hp]
      · simp [find?, hq, hp, Ne.symm hp]
    · by_cases hqp : q = p
      · simp [find?, hqp, hqp ▸ hq]
      · simp [find?, hq, hqp, ih]

theorem at?_set (t : FileTree) {place : Place} (hplace : place ≠ .top) (e : Entry) (p : Place) :
    (t.set place e).at? p = if p = place then some e else t.at? p := by
  rw [at?, at?, set]
  by_cases htop : p = .top
  · simp [htop, hplace.symm]
  · simp [htop, find?_put]

theorem Proper.folder_parent (h : t.Proper) {p : Place} (hp : t.at? p = some .folder) :
    t.at? p.parent = some .folder := by
  cases p using Place.byChild with
  | top => exact at?_top t
  | child p name =>
    rw [Place.parent_child]
    exact (h p name _ hp).2

theorem Proper.set (h : t.Proper) {place : Place} (hroom : t.HasRoomAt place)
    (hfolder : t.at? place ≠ some .folder) (e : Entry) : (t.set place e).Proper := by
  obtain ⟨q, other, hplace, hother, hq⟩ := hroom.resolve_left hfolder
  subst hplace
  have htop := q.child_ne_top other
  intro p name d hd
  rw [at?_set t htop] at hd ⊢
  -- The folder of what was there is not the place itself, for no folder was there.
  by_cases hsame : p.child name = q.child other
  · obtain ⟨hp, hname⟩ := Place.child_inj hsame
    rw [hp, hname, if_neg (q.child_ne_self other).symm]
    exact ⟨hother, hq⟩
  · rw [if_neg hsame] at hd
    obtain ⟨hname, hp⟩ := h p name d hd
    have hne : p ≠ q.child other := fun heq => hfolder (heq ▸ hp)
    rw [if_neg hne]
    exact ⟨hname, hp⟩

theorem Proper.without (h : t.Proper) (place : Place) : (t.without place).Proper := by
  have hat {p : Place} {e : Entry} (hp : p ≠ .top) :
      (t.without place).at? p = some e ↔ t.at? p = some e ∧ ¬ place.isAbove p := by
    rw [at?_eq_some_iff hp, at?_eq_some_iff hp, FileTree.without, List.mem_filter]
    simp
  intro p name e he
  obtain ⟨he, habove⟩ := (hat (p.child_ne_top name)).mp he
  obtain ⟨hname, hp⟩ := h p name e he
  refine ⟨hname, ?_⟩
  by_cases htop : p = .top
  · rw [htop, at?_top]
  · exact (hat htop).mpr ⟨hp, fun hplace => habove (Place.isAbove_child hplace name)⟩

theorem Proper.hasRoomAt_step (h : t.Proper) {p next : Place} {name : OsString}
    (hname : name ≠ "" ∧ Path.slash ∉ name.bytes ∧ 0 ∉ name.bytes)
    (hstep : t.step p name = .ok next) : t.HasRoomAt next := by
  have hfolder := folder_of_step hstep
  obtain ⟨hnonempty, hslash, hnul⟩ := hname
  obtain ⟨-, hnext⟩ | ⟨-, hnext⟩ | ⟨⟨hhere, hup, hshort⟩, hnext⟩ := step_cases hstep
  · exact .inl (hnext ▸ hfolder)
  · exact .inl (hnext ▸ h.folder_parent hfolder)
  · exact .inr ⟨p, name, hnext, ⟨hslash, hnul, hnonempty, hhere, hup, hshort⟩, hfolder⟩

theorem Proper.hasRoomAt_walk (h : t.Proper) {p place : Place} {names : List OsString}
    (hnames : ∀ name ∈ names, name ≠ "" ∧ Path.slash ∉ name.bytes ∧ 0 ∉ name.bytes)
    (hp : names = [] → t.HasRoomAt p) (hwalk : t.walk p names = .ok place) :
    t.HasRoomAt place := by
  induction names generalizing p with
  | nil =>
    cases hwalk
    exact hp rfl
  | cons name names ih =>
    rw [walk] at hwalk
    cases hstep : t.step p name with
    | error cause => simp [hstep] at hwalk
    | ok next =>
      rw [hstep] at hwalk
      obtain ⟨hname, hrest⟩ := List.forall_mem_cons.mp hnames
      exact ih hrest (fun _ => h.hasRoomAt_step hname hstep) hwalk

theorem Proper.hasRoomAt_resolve (h : t.Proper) {p : Path} {place : Place}
    (hresolve : t.resolve p = .ok place) : t.HasRoomAt place := by
  obtain ⟨hraw, hnul, -, hwalk⟩ := resolve_eq_ok_iff.mp hresolve
  refine h.hasRoomAt_walk (fun name hname => ?_) (fun hnil => ?_) hwalk
  · cases List.mem_append.mp hname with
    | inl hpart =>
      obtain ⟨hnonempty, hslash, hfrom⟩ := Path.mem_parts hpart
      exact ⟨hnonempty, hslash, fun hmem => hnul (hfrom _ hmem)⟩
    | inr hhere =>
      split at hhere
      · rw [List.mem_singleton.mp hhere]
        decide
      · contradiction
  · rw [origin]
    split
    · exact .inl (at?_top t)
    · rename_i hrelative
      refine absurd (List.append_eq_nil_iff.mp hnil).1 (Path.parts_ne_nil hraw ?_)
      simpa using hrelative

theorem write_eq_ok_iff {p : Path} {content : ByteArray} :
    t.write p content = .ok t' ↔ ∃ place, t.resolve p = .ok place ∧
      t.at? place ≠ some .folder ∧ t' = t.set place (.file content) := by
  rw [FileTree.write]
  cases t.resolve p with
  | error cause => simp
  | ok place =>
    dsimp only
    split
    · simp_all
    · simp_all [eq_comm]

theorem Proper.write (h : t.Proper) {p : Path} {content : ByteArray}
    (hwrite : t.write p content = .ok t') : t'.Proper := by
  obtain ⟨place, hresolve, hfile, rfl⟩ := write_eq_ok_iff.mp hwrite
  exact h.set (h.hasRoomAt_resolve hresolve) hfile _

theorem Proper.append (h : t.Proper) {p : Path} {content : ByteArray}
    (happend : t.append p content = .ok t') : t'.Proper := by
  rw [FileTree.append] at happend
  split at happend <;> exact h.write happend

theorem Proper.remove (h : t.Proper) {p : Path} (hremove : t.remove p = .ok t') : t'.Proper := by
  rw [FileTree.remove] at hremove
  split at hremove
  · contradiction
  · split at hremove
    · contradiction
    · cases hremove
      exact h.without _

theorem Proper.makeWay (h : t.Proper) {names : List OsString}
    (hnames : ∀ name ∈ names, name ≠ "" ∧ Path.slash ∉ name.bytes ∧ 0 ∉ name.bytes)
    (place : Place) : (t.makeWay place names).1.Proper := by
  induction names generalizing t place with
  | nil => exact h
  | cons name names ih =>
    obtain ⟨hname, hrest⟩ := List.forall_mem_cons.mp hnames
    rw [FileTree.makeWay]
    cases hstep : t.step place name with
    | error cause => exact h
    | ok next =>
      dsimp only
      split
      · exact ih h hrest next
      · exact h
      · rename_i hnone
        split
        · exact h
        · refine ih (h.set (h.hasRoomAt_step hname hstep) ?_ .folder) hrest next
          simp [hnone]

theorem Proper.makeFolders (h : t.Proper) (p : Path) : (t.makeFolders p).1.Proper := by
  rw [FileTree.makeFolders]
  split
  · exact h
  · rename_i hnul
    have hmade : (t.makeWay (t.origin p) p.parts).1.Proper := by
      refine h.makeWay (fun name hname => ?_) _
      obtain ⟨hnonempty, hslash, hfrom⟩ := Path.mem_parts hname
      exact ⟨hnonempty, hslash, fun hmem => hnul (by simpa using hfrom _ hmem)⟩
    split
    · exact h
    · split
      · exact hmade
      · exact h
      · exact hmade

/-- The trees that edits make. -/
inductive Made : FileTree → Prop where
  | start : Made start
  | write {t t' : FileTree} {p : Path} {content : ByteArray} :
    Made t → t.write p content = .ok t' → Made t'
  | append {t t' : FileTree} {p : Path} {content : ByteArray} :
    Made t → t.append p content = .ok t' → Made t'
  | makeFolders {t : FileTree} (p : Path) : Made t → Made (t.makeFolders p).1
  | remove {t t' : FileTree} {p : Path} : Made t → t.remove p = .ok t' → Made t'

theorem Made.proper (h : Made t) : t.Proper := by
  induction h with
  | start => exact proper_start
  | write _ hwrite ih => exact ih.write hwrite
  | append _ happend ih => exact ih.append happend
  | makeFolders p _ ih => exact ih.makeFolders p
  | remove _ hremove ih => exact ih.remove hremove

end
end FileTree
end SweepReport
