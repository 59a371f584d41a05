import SweepReport.Label.Reading
import SweepReport.Proofs.Numeral.Digits
import SweepReport.Proofs.Text.Trim

/-! Labels written and read. A label whose thread count is text without commas and without white space
at its ends is read back from what is written for it, and no others are read from trimmed text. -/
namespace SweepReport.Label
open Text (isBlank Trimmed Blanks)
open Numeral (isDigit readWord)

/-- The thread count is some text without commas, and white space is not first or last in it. -/
structure Canonical (l : Label) : Prop where
  occupied : l.threads.text ≠ ""
  noComma : ',' ∉ l.threads.text.toList
  trimmed : Trimmed l.threads.text.toList

theorem splitComma?_eq_some_iff {cs before after : List Char} :
    splitComma? cs = some (before, after) ↔ cs = before ++ ',' :: after ∧ ',' ∉ before := by
  induction cs generalizing before with
  | nil => simp [splitComma?]
  | cons c cs ih =>
    by_cases hc : c = ','
    · cases before with
      | nil => simp [splitComma?, hc]
      | cons b before =>
        simp only [splitComma?, hc, if_true, List.cons_append, List.cons.injEq, List.mem_cons]
        grind
    · cases before with
      | nil => simp [splitComma?, hc]
      | cons b before =>
        have hstep : splitComma? (c :: cs) = some (b :: before, after) ↔
            c = b ∧ splitComma? cs = some (before, after) := by
          cases h : splitComma? cs <;> simp [splitComma?, hc, h, Prod.ext_iff, and_assoc]
        rw [hstep, ih, List.cons_append, List.cons.injEq, List.mem_cons, not_or, and_assoc]
        constructor
        · rintro ⟨rfl, hcs, hcomma⟩
          exact ⟨rfl, hcs, Ne.symm hc, hcomma⟩
        · rintro ⟨rfl, hcs, -, hcomma⟩
          exact ⟨rfl, hcs, hcomma⟩

theorem ofChars?_eq_some_iff {cs : List Char} {l : Label} :
    ofChars? cs = some l ↔ ∃ before after, cs = before ++ ',' :: after ∧ ',' ∉ before ∧
      threadsOf? before = some l.threads.text.toList ∧ batchOf? after = some l.batch := by
  obtain ⟨⟨text⟩, batch⟩ := l
  have hlabel (threads : List Char) (n : UInt64) :
      (⟨⟨String.ofList threads⟩, n⟩ : Label) = ⟨⟨text⟩, batch⟩ ↔
        threads = text.toList ∧ n = batch := by
    rw [Label.mk.injEq, ThreadCount.mk.injEq, ← String.toList_inj, String.toList_ofList]
  constructor
  · intro h
    unfold ofChars? at h
    split at h
    · contradiction
    · rename_i before after hsplit
      obtain ⟨hcs, hcomma⟩ := splitComma?_eq_some_iff.mp hsplit
      split at h
      · rename_i threads n hthreads hbatch
        obtain ⟨rfl, rfl⟩ := (hlabel threads n).mp (Option.some.inj h)
        exact ⟨before, after, hcs, hcomma, hthreads, hbatch⟩
      · contradiction
  · rintro ⟨before, after, hcs, hcomma, hthreads, hbatch⟩
    simp only [ofChars?, splitComma?_eq_some_iff.mpr ⟨hcs, hcomma⟩, hthreads, hbatch,
      String.ofList_toList]

theorem ofText_eq_ok_iff {s : String} {l : Label} : ofText s = .ok l ↔ ofChars? s.toList = some l := by
  unfold ofText
  split <;> rename_i h <;> simp [h]

theorem threadsOf?_of_trim_ne_nil {cs : List Char} (h : Text.trim cs ≠ []) :
    threadsOf? cs = some (Text.trim cs) := by
  unfold threadsOf?
  split
  · contradiction
  · rfl

theorem isBlank_of_isDigit {c : Char} (h : Numeral.isDigit c = true) : isBlank c = false := by
  have hbounds := Numeral.toNat_of_isDigit h
  simp [isBlank, Text.blankRanges]
  omega

section
variable {digits w₁ w₂ w₃ : List Char}

theorem trimStart_unit (hw : Blanks w₂) :
    Text.trimStart (w₂ ++ (unit ++ w₃)) = unit ++ w₃ := by
  rw [Text.trimStart_append hw]
  rfl

theorem head?_unit (hw : Blanks w₂) :
    ∀ c ∈ (w₂ ++ (unit ++ w₃)).head?, isBlank c = true ∨ c = 'f' := by
  intro c hc
  cases w₂ with
  | nil => exact .inr (Option.some.inj hc).symm
  | cons d w₂ => exact .inl (hw c (by simp [Option.some.inj hc]))

theorem isDigit_head?_unit (hw : Blanks w₂) :
    ∀ c ∈ (w₂ ++ (unit ++ w₃)).head?, isDigit c = false := by
  intro c hc
  refine Bool.eq_false_iff.mpr fun hdigit => ?_
  cases head?_unit hw c hc with
  | inl hblank =>
    rw [isBlank_of_isDigit hdigit] at hblank
    contradiction
  | inr hword =>
    rw [hword] at hdigit
    contradiction

/-- The batch is what the digits write, wherever white space stands. -/
theorem batchOf?_append (hdigits : ∀ c ∈ digits, isDigit c = true) (h₁ : Blanks w₁)
    (h₂ : Blanks w₂) (h₃ : Blanks w₃) :
    batchOf? (w₁ ++ (digits ++ (w₂ ++ (unit ++ w₃)))) = (readWord 10 digits).toOption := by
  have hunit : (unit.isPrefixOf (unit ++ w₃) &&
      ((unit ++ w₃).drop unit.length).all isBlank) = true := by
    rw [Bool.and_eq_true, List.isPrefixOf_iff_prefix, List.drop_left, List.all_eq_true]
    exact ⟨List.prefix_append unit w₃, h₃⟩
  rw [batchOf?, Text.trimStart_append h₁]
  cases digits with
  | nil =>
    rw [List.nil_append, trimStart_unit h₂]
    have htake : (unit ++ w₃).takeWhile isDigit = [] := rfl
    have hdrop : (unit ++ w₃).dropWhile isDigit = unit ++ w₃ := rfl
    have hstart : Text.trimStart (unit ++ w₃) = unit ++ w₃ := rfl
    simp only [htake, hdrop, hstart, hunit, if_true]
  | cons d ds =>
    have hstart : Text.trimStart (d :: ds ++ (w₂ ++ (unit ++ w₃))) =
        d :: ds ++ (w₂ ++ (unit ++ w₃)) :=
      Text.trimStart_eq_self fun c hc => isBlank_of_isDigit (hdigits c (by simp [Option.some.inj hc]))
    simp only [hstart, Numeral.takeWhile_isDigit_append hdigits (isDigit_head?_unit h₂),
      Numeral.dropWhile_isDigit_append hdigits (isDigit_head?_unit h₂), trimStart_unit h₂, hunit, if_true]

end

theorem batchOf?_decimalText (w : UInt64) :
    batchOf? (' ' :: Numeral.decimalText w.toNat ++ ' ' :: unit) = some w := by
  have hblank : Blanks [' '] := by decide
  have hnone : Blanks [] := by decide
  have hdigits : ∀ c ∈ Numeral.decimalText w.toNat, isDigit c = true :=
    fun _ => Numeral.isDigit_of_mem_decimalText
  have hspaced := batchOf?_append hdigits hblank hblank hnone
  rw [Numeral.readWord_decimalText, List.append_nil] at hspaced
  exact hspaced

/-- Text that is trimmed gives canonical labels. -/
theorem canonical_of_ofText {s : String} {l : Label} (hs : Trimmed s.toList)
    (h : ofText s = .ok l) : l.Canonical := by
  obtain ⟨before, after, hcs, hcomma, hthreads, -⟩ :=
    ofChars?_eq_some_iff.mp (ofText_eq_ok_iff.mp h)
  have htrim : Text.trim before ≠ [] := by
    cases before with
    | nil => simp [threadsOf?, Text.trim, Text.trimStart, Text.trimEnd] at hthreads
    | cons c cs =>
      exact Text.trim_ne_nil rfl (hs.first c (by simp [hcs]))
  rw [threadsOf?_of_trim_ne_nil htrim, Option.some.injEq] at hthreads
  refine ⟨fun hempty => htrim ?_, ?_, ?_⟩
  · rw [hthreads, hempty]
    rfl
  · rw [← hthreads]
    exact fun hmem => hcomma (Text.mem_of_mem_trim hmem)
  · rw [← hthreads]
    exact Text.trimmed_trim before

theorem Canonical.ofText_text {l : Label} (h : l.Canonical) : ofText l.text = .ok l := by
  have htrim : Text.trim l.threads.text.toList = l.threads.text.toList := h.trimmed.trim_eq
  have hne : Text.trim l.threads.text.toList ≠ [] := by
    rw [htrim, Ne, String.toList_eq_nil_iff]
    exact h.occupied
  refine ofText_eq_ok_iff.mpr (ofChars?_eq_some_iff.mpr ⟨l.threads.text.toList,
    ' ' :: Numeral.decimalText l.batch.toNat ++ ' ' :: unit, ?_, h.noComma, ?_,
    batchOf?_decimalText l.batch⟩)
  · simp [text, chars]
  · rw [threadsOf?_of_trim_ne_nil hne, htrim]

theorem Canonical.text_inj {l k : Label} (hl : l.Canonical) (hk : k.Canonical) :
    l.text = k.text ↔ l = k := by
  refine ⟨fun h => ?_, fun h => h ▸ rfl⟩
  have hread := hl.ofText_text
  rw [h, hk.ofText_text, Except.ok.injEq] at hread
  exact hread.symm

end SweepReport.Label
