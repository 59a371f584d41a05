import Mathlib.Data.List.DropRight
import SweepReport.Text.Blank

/-! Text with no white space at its ends. Trimming makes every text such a one, and leaves those that
are as they stand. -/
namespace SweepReport.Text

/-- Neither the first character nor the last is white space. -/
structure Trimmed (cs : List Char) : Prop where
  first : ∀ c ∈ cs.head?, isBlank c = false
  last : ∀ c ∈ cs.getLast?, isBlank c = false

def Blanks (cs : List Char) : Prop := ∀ c ∈ cs, isBlank c = true

instance (cs : List Char) : Decidable (Blanks cs) :=
  List.decidableBAll (isBlank · = true) cs

theorem trimEnd_eq (cs : List Char) : trimEnd cs = cs.rdropWhile isBlank := rfl

theorem head?_trimStart (cs : List Char) : ∀ c ∈ (trimStart cs).head?, isBlank c = false := by
  intro c hc
  have h := List.head?_dropWhile_not isBlank cs
  rw [← trimStart, Option.mem_def.mp hc] at h
  simpa using h

theorem getLast?_trimEnd (cs : List Char) : ∀ c ∈ (trimEnd cs).getLast?, isBlank c = false := by
  intro c hc
  rw [trimEnd, List.getLast?_reverse] at hc
  exact head?_trimStart cs.reverse c hc

theorem trimStart_eq_self {cs : List Char} (h : ∀ c ∈ cs.head?, isBlank c = false) :
    trimStart cs = cs := by
  cases cs with
  | nil => rfl
  | cons c cs => exact List.dropWhile_cons_of_neg (by simp [h c rfl])

theorem trimEnd_eq_self {cs : List Char} (h : ∀ c ∈ cs.getLast?, isBlank c = false) :
    trimEnd cs = cs := by
  have hreverse : trimStart cs.reverse = cs.reverse :=
    trimStart_eq_self (by simpa only [List.head?_reverse] using h)
  rw [trimEnd, ← trimStart, hreverse, List.reverse_reverse]

theorem trimmed_trim (cs : List Char) : Trimmed (trim cs) := by
  refine ⟨fun c hc => ?_, getLast?_trimEnd _⟩
  -- What is left after the end is cut off starts as it did before.
  obtain ⟨rest, hrest⟩ := List.rdropWhile_prefix isBlank (trimStart cs)
  refine head?_trimStart cs c ?_
  rw [← hrest, ← trimEnd_eq, ← trim, List.head?_append, Option.mem_def.mp hc]
  rfl

theorem Trimmed.trim_eq {cs : List Char} (h : Trimmed cs) : trim cs = cs := by
  rw [trim, trimStart_eq_self h.first, trimEnd_eq_self h.last]

theorem mem_of_mem_trim {cs : List Char} {c : Char} (h : c ∈ trim cs) : c ∈ cs :=
  (List.dropWhile_sublist isBlank).mem ((List.rdropWhile_prefix isBlank _).mem h)

theorem trim_ne_nil {cs : List Char} {c : Char} (hc : c ∈ cs.head?) (hblank : isBlank c = false) :
    trim cs ≠ [] := by
  have hstart : trimStart cs = cs := by
    refine trimStart_eq_self fun d hd => ?_
    rw [Option.mem_def] at hc hd
    rw [hc, Option.some.injEq] at hd
    exact hd ▸ hblank
  rw [trim, hstart, trimEnd_eq, Ne, List.rdropWhile_eq_nil_iff]
  intro h
  have := h c (List.mem_of_mem_head? hc)
  simp [hblank] at this

theorem trimStart_append {w : List Char} (hw : Blanks w) (cs : List Char) :
    trimStart (w ++ cs) = trimStart cs := List.dropWhile_append_of_pos hw

theorem trimEnd_append {w : List Char} (hw : Blanks w) (cs : List Char) :
    trimEnd (cs ++ w) = trimEnd cs := by
  have hreverse : Blanks w.reverse := fun c hc => hw c (List.mem_reverse.mp hc)
  rw [trimEnd, List.reverse_append, ← trimStart, trimStart_append hreverse]
  rfl

theorem trimEnd_eq_nil_iff {cs : List Char} : trimEnd cs = [] ↔ Blanks cs := by
  rw [trimEnd_eq, List.rdropWhile_eq_nil_iff, Blanks]

theorem trimEnd_cons {c : Char} {cs : List Char} (h : ¬ Blanks (c :: cs)) :
    trimEnd (c :: cs) = c :: trimEnd cs := by
  rw [trimEnd, trimEnd, List.reverse_cons, List.dropWhile_append]
  split
  · rename_i hempty
    have hcs : Blanks cs := by
      rwa [List.isEmpty_iff, ← List.reverse_eq_nil_iff, ← trimEnd, trimEnd_eq_nil_iff] at hempty
    have hc : ¬ isBlank c = true := fun hc => h (List.forall_mem_cons.mpr ⟨hc, hcs⟩)
    rw [List.isEmpty_iff.mp hempty, List.dropWhile_cons_of_neg hc]
    rfl
  · rw [List.reverse_append]
    rfl

theorem trim_of_blanks {cs : List Char} (h : Blanks cs) : trim cs = [] := by
  have hstart : trimStart cs = [] := List.dropWhile_eq_nil_iff.mpr h
  rw [trim, hstart]
  rfl

theorem trim_append {w t v : List Char} (hw : Blanks w) (ht : Trimmed t) (hv : Blanks v) :
    trim (w ++ t ++ v) = t := by
  rw [trim, List.append_assoc, trimStart_append hw]
  cases t with
  | nil => exact trim_of_blanks hv
  | cons c t =>
    have hstart : trimStart (c :: t ++ v) = c :: t ++ v :=
      trimStart_eq_self fun d hd => ht.first d hd
    rw [hstart, trimEnd_append hv, trimEnd_eq_self ht.last]

theorem exists_trimStart (cs : List Char) : ∃ w, cs = w ++ trimStart cs ∧ Blanks w :=
  ⟨cs.takeWhile isBlank, List.takeWhile_append_dropWhile.symm, fun _ => List.mem_takeWhile_imp⟩

theorem exists_trimEnd (cs : List Char) : ∃ v, cs = trimEnd cs ++ v ∧ Blanks v := by
  obtain ⟨w, hcs, hw⟩ := exists_trimStart cs.reverse
  refine ⟨w.reverse, ?_, fun c hc => hw c (List.mem_reverse.mp hc)⟩
  rw [trimEnd, ← trimStart, ← List.reverse_append, ← hcs, List.reverse_reverse]

/-- Trimming takes white space off both ends. -/
theorem exists_trim (cs : List Char) : ∃ w v, cs = w ++ trim cs ++ v ∧ Blanks w ∧ Blanks v := by
  obtain ⟨w, hcs, hw⟩ := exists_trimStart cs
  obtain ⟨v, hstart, hv⟩ := exists_trimEnd (trimStart cs)
  refine ⟨w, v, ?_, hw, hv⟩
  rw [trim, List.append_assoc, ← hstart, ← hcs]

theorem trim_eq_nil_iff {cs : List Char} : trim cs = [] ↔ Blanks cs := by
  refine ⟨fun h => ?_, trim_of_blanks⟩
  obtain ⟨w, v, hcs, hw, hv⟩ := exists_trim cs
  rw [h, List.append_nil] at hcs
  rw [hcs]
  exact List.forall_mem_append.mpr ⟨hw, hv⟩

end SweepReport.Text
