import Mathlib.Data.List.TakeWhile
import SweepReport.Delimited
import SweepReport.Proofs.Text.Utf8

/-! Records of a text. Commas, quotes and line ends are characters by themselves, so a scan that
parts the bytes of a text there finds fields that are texts. -/
namespace SweepReport.Delimited
open Text (IsText)

theorem quote_ascii : quote < 0x80 := by decide

theorem comma_ascii : comma < 0x80 := by decide

theorem endsLine_ascii {b : UInt8} (h : endsLine b = true) : b < 0x80 := by
  simp only [endsLine, Bool.or_eq_true, decide_eq_true_eq] at h
  rcases h with rfl | rfl <;> decide

theorem isByteBlank_ascii {b : UInt8} (h : isByteBlank b = true) : b < 0x80 := by
  simp only [isByteBlank, Bool.or_eq_true, decide_eq_true_eq] at h
  rcases h with (((rfl | rfl) | rfl) | rfl) | rfl <;> decide

def AllText (fields : List Bytes) : Prop := ∀ field ∈ fields, IsText field

namespace Scan

/-- The fields found are texts, and so is the field begun together with the bytes to come. -/
structure Within (s : Scan) (bs : Bytes) : Prop where
  fields : AllText s.fields
  field : IsText (s.field.reverse ++ bs)

variable {s : Scan} {b : UInt8} {bs : Bytes}

theorem within_start (h : IsText bs) : start.Within bs := ⟨nofun, h⟩

/-- A byte that is left out stands for itself. -/
theorem Within.skip (h : s.Within (b :: bs)) (hb : b < 0x80) (mode : Mode) :
    { s with mode := mode }.Within bs := by
  obtain ⟨hbefore, hafter⟩ := h.field.divide hb
  exact ⟨h.fields, hbefore.append hafter⟩

theorem Within.push (h : s.Within (b :: bs)) (mode : Mode) : (s.push mode b).Within bs := by
  refine ⟨h.fields, ?_⟩
  rw [Scan.push, List.reverse_cons, List.append_assoc]
  exact h.field

theorem Within.record (h : s.Within (b :: bs)) (hb : b < 0x80) : AllText s.record := by
  intro field hfield
  rw [Scan.record, List.mem_reverse, List.mem_cons] at hfield
  rcases hfield with rfl | hfield
  · exact (h.field.divide hb).1
  · exact h.fields field hfield

theorem Within.endField (h : s.Within (b :: bs)) (hb : b < 0x80) : s.endField.Within bs := by
  obtain ⟨hbefore, hafter⟩ := h.field.divide hb
  exact ⟨List.forall_mem_cons.mpr ⟨hbefore, h.fields⟩, hafter⟩

theorem Within.bareStep (h : s.Within (b :: bs)) :
    (s.bareStep b).1.Within bs ∧ ∀ r ∈ (s.bareStep b).2, AllText r := by
  unfold Scan.bareStep
  split
  · rename_i hcomma
    exact ⟨h.endField (hcomma ▸ comma_ascii), nofun⟩
  · split
    · rename_i hends
      have hb := endsLine_ascii hends
      refine ⟨within_start (h.field.divide hb).2, ?_⟩
      rintro r ⟨⟩
      exact h.record hb
    · exact ⟨h.push .bare, nofun⟩

theorem Within.step (h : s.Within (b :: bs)) :
    (s.step b).1.Within bs ∧ ∀ r ∈ (s.step b).2, AllText r := by
  unfold Scan.step
  have hquote (hb : b = quote) (mode : Mode) : { s with mode := mode }.Within bs :=
    h.skip (hb ▸ quote_ascii) mode
  cases s.mode with
  | recordStart =>
    dsimp only
    split
    · rename_i hends
      exact ⟨h.skip (endsLine_ascii hends) s.mode, nofun⟩
    · split
      · exact ⟨hquote ‹_› _, nofun⟩
      · exact h.bareStep
  | fieldStart =>
    dsimp only
    split
    · exact ⟨hquote ‹_› _, nofun⟩
    · exact h.bareStep
  | bare => exact h.bareStep
  | quoted =>
    dsimp only
    split
    · exact ⟨hquote ‹_› _, nofun⟩
    · exact ⟨h.push .quoted, nofun⟩
  | afterQuote =>
    dsimp only
    split
    · exact ⟨h.push .quoted, nofun⟩
    · exact h.bareStep

theorem allText_run {found : List Record} (hfound : ∀ r ∈ found, AllText r) (h : s.Within bs) :
    ∀ r ∈ run found s bs, AllText r := by
  induction bs generalizing found s with
  | nil =>
    intro r hr
    rw [run, List.mem_reverse] at hr
    split at hr
    · exact hfound r hr
    · rcases List.mem_cons.mp hr with rfl | hr
      · intro field hfield
        rw [record, List.mem_reverse, List.mem_cons] at hfield
        rcases hfield with rfl | hfield
        · simpa using h.field
        · exact h.fields field hfield
      · exact hfound r hr
  | cons b bs ih =>
    obtain ⟨hnext, hrecord⟩ := h.step
    rw [run]
    split
    · rename_i next hstep
      rw [hstep] at hnext
      exact ih hfound hnext
    · rename_i next r hstep
      rw [hstep] at hnext hrecord
      exact ih (List.forall_mem_cons.mpr ⟨hrecord r rfl, hfound⟩) hnext

end Scan

theorem isText_skipMark {bs : Bytes} (h : IsText bs) : IsText (skipMark bs) := by
  unfold skipMark
  split
  · rename_i hmark
    obtain ⟨rest, rfl⟩ := List.isPrefixOf_iff_prefix.mp hmark
    rw [List.drop_left]
    have hchar : Text.firstChar? byteOrderMark = some ('\ufeff', []) := by decide
    cases h with
    | cons first more =>
      rw [Text.firstChar?_append hchar, Option.some.injEq, Prod.mk.injEq, List.nil_append] at first
      exact first.2 ▸ more
  · exact h

theorem allText_records {bs : Bytes} (h : IsText bs) : ∀ r ∈ records bs, AllText r :=
  Scan.allText_run nofun (Scan.within_start (isText_skipMark h))

theorem isText_trim {bs : Bytes} (h : IsText bs) : IsText (trim bs) := by
  have hsplit : IsText (bs.takeWhile isByteBlank ++ bs.dropWhile isByteBlank) := by
    rwa [List.takeWhile_append_dropWhile]
  have hrest : IsText (bs.dropWhile isByteBlank) :=
    .of_ascii_append (fun b hb => isByteBlank_ascii (List.mem_takeWhile_imp hb)) hsplit
  rw [trim]
  generalize bs.dropWhile isByteBlank = rest at hrest
  have hends : IsText ((rest.reverse.dropWhile isByteBlank).reverse ++
      (rest.reverse.takeWhile isByteBlank).reverse) := by
    rwa [← List.reverse_append, List.takeWhile_append_dropWhile, List.reverse_reverse]
  refine .of_append_ascii (fun b hb => ?_) hends
  exact isByteBlank_ascii (List.mem_takeWhile_imp (List.mem_reverse.mp hb))

end SweepReport.Delimited
