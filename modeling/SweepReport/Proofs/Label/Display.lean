import SweepReport.Proofs.Label.Grammar

/-! Labels that are written and read again. What is written for a label tells it from all others, and
the last comma is where to look for the batch. The reader looks at the first one, so it gives back just
the labels whose thread count could have been read from some text. -/
namespace SweepReport.Label
open Text (isBlank Trimmed Blanks)

/-- The thread count is such as a reader gives: some text without commas that has no white space at its
ends, or one character of white space. -/
structure Readable (l : Label) : Prop where
  occupied : l.threads.text ≠ ""
  noComma : ',' ∉ l.threads.text.toList
  ends : Trimmed l.threads.text.toList ∨ ∃ c, l.threads.text.toList = [c] ∧ isBlank c = true

def batchChars (n : UInt64) : List Char := ' ' :: Numeral.decimalText n.toNat ++ ' ' :: unit

theorem chars_eq (l : Label) : l.chars = l.threads.text.toList ++ ',' :: batchChars l.batch := by
  simp [chars, batchChars]

theorem batchOf?_batchChars (n : UInt64) : batchOf? (batchChars n) = some n := batchOf?_decimalText n

theorem comma_not_mem_batchChars (n : UInt64) : ',' ∉ batchChars n := by
  have hdigits : ',' ∉ Numeral.decimalText n.toNat := fun hmem =>
    absurd (Numeral.isDigit_of_mem_decimalText hmem) (by decide)
  simp [batchChars, unit, hdigits]

section
variable {cs t : List Char}

theorem CountIn.ne_nil (h : CountIn cs t) : t ≠ [] := by
  cases h with
  | text _ hne _ _ => exact hne
  | blank _ _ => exact List.cons_ne_nil _ _

theorem CountIn.ends (h : CountIn cs t) : Trimmed t ∨ ∃ c, t = [c] ∧ isBlank c = true := by
  cases h with
  | text _ _ ht _ => exact .inl ht
  | blank _ hc => exact .inr ⟨_, rfl, hc⟩

theorem CountIn.subset (h : CountIn cs t) : t ⊆ cs := by
  cases h <;> simp

theorem countIn_self (hne : t ≠ []) (hends : Trimmed t ∨ ∃ c, t = [c] ∧ isBlank c = true) :
    CountIn t t := by
  have hnone : Blanks [] := by decide
  rcases hends with ht | ⟨c, rfl, hc⟩
  · simpa using CountIn.text hnone hne ht hnone
  · exact CountIn.blank hnone hc

end

/-- A label is read back just where its thread count alone stands for a thread count. -/
theorem ofText_text_eq_ok_iff {l : Label} : ofText l.text = .ok l ↔
    ',' ∉ l.threads.text.toList ∧ CountIn l.threads.text.toList l.threads.text.toList := by
  rw [ofText_eq_ok_iff, ofChars?_eq_some_iff, text, String.toList_ofList, chars_eq]
  constructor
  · rintro ⟨before, after, hcs, hbefore, hthreads, -⟩
    have hcount := threadsOf?_eq_some_iff.mp hthreads
    have hcomma : ',' ∉ l.threads.text.toList := fun hmem => hbefore (hcount.subset hmem)
    -- Both commas are the first of the text.
    have hsplit := splitComma?_eq_some_iff.mpr ⟨hcs, hbefore⟩
    rw [splitComma?_eq_some_iff.mpr ⟨rfl, hcomma⟩, Option.some.injEq, Prod.mk.injEq] at hsplit
    rw [← hsplit.1] at hcount
    exact ⟨hcomma, hcount⟩
  · rintro ⟨hcomma, hcount⟩
    exact ⟨_, _, rfl, hcomma, threadsOf?_eq_some_iff.mpr hcount, batchOf?_batchChars l.batch⟩

theorem readable_iff {l : Label} : l.Readable ↔
    ',' ∉ l.threads.text.toList ∧ CountIn l.threads.text.toList l.threads.text.toList := by
  constructor
  · rintro ⟨hne, hcomma, hends⟩
    exact ⟨hcomma, countIn_self (mt String.toList_eq_nil_iff.mp hne) hends⟩
  · rintro ⟨hcomma, hcount⟩
    exact ⟨mt String.toList_eq_nil_iff.mpr hcount.ne_nil, hcomma, hcount.ends⟩

/-- A reader gives no other labels. -/
theorem readable_of_ofText {s : String} {l : Label} (h : ofText s = .ok l) : l.Readable := by
  obtain ⟨p, -, hcount, -⟩ := ofText_eq_ok_iff_spelled.mp h
  exact ⟨mt String.toList_eq_nil_iff.mpr hcount.ne_nil, fun hmem => p.noComma (hcount.subset hmem),
    hcount.ends⟩

/-- The last comma parts what is written for a label. -/
theorem chars_inj {l k : Label} (h : l.chars = k.chars) : l = k := by
  have hlast (k : Label) : splitComma? k.chars.reverse =
      some ((batchChars k.batch).reverse, k.threads.text.toList.reverse) := by
    refine splitComma?_eq_some_iff.mpr ⟨?_, fun hmem => ?_⟩
    · simp [chars_eq]
    · exact comma_not_mem_batchChars k.batch (List.mem_reverse.mp hmem)
  have hparts := hlast l
  rw [h, hlast k, Option.some.injEq, Prod.mk.injEq, List.reverse_inj, List.reverse_inj,
    String.toList_inj] at hparts
  obtain ⟨hbatch, hthreads⟩ := hparts
  have hsame := batchOf?_batchChars l.batch
  rw [← hbatch, batchOf?_batchChars, Option.some.injEq] at hsame
  obtain ⟨⟨_⟩, _⟩ := l
  obtain ⟨⟨_⟩, _⟩ := k
  cases hthreads
  cases hsame
  rfl

/-- A label is read back from what is written for it just where its thread count is some text without
commas, with no white space at its ends unless it is one character of white space. Every label that was
read is read back, and no two labels are written alike. -/
theorem text_tells_labels_apart :
    (∀ l : Label, ofText l.text = .ok l ↔ l.Readable) ∧
    (∀ (s : String) (l : Label), ofText s = .ok l → ofText l.text = .ok l) ∧
    Function.Injective text := by
  have hiff (l : Label) : ofText l.text = .ok l ↔ l.Readable :=
    ofText_text_eq_ok_iff.trans readable_iff.symm
  refine ⟨hiff, fun s l h => (hiff l).mpr (readable_of_ofText h), fun l k h => ?_⟩
  exact chars_inj (String.ofList_inj.mp h)

/-- A blank thread count is read from much white space and read back; one that ends like a label is
written like no other label, and is not read back. -/
theorem blank_count_reads_back :
    ofText "\t\u3000,008files" = .ok (.of "\u3000" 8) ∧
    ofText (of "\u3000" 8).text = .ok (of "\u3000" 8) ∧
    ofText (of "2, 5 files" 8).text ≠ .ok (of "2, 5 files" 8) ∧
    (of "2, 5 files" 8).text ≠ (of "2" 5).text := by
  obtain ⟨hiff, hagain, hinjective⟩ := text_tells_labels_apart
  have hread : ofText "\t\u3000,008files" = .ok (.of "\u3000" 8) :=
    ofText_eq_ok_iff.mpr (by decide)
  exact ⟨hread, hagain _ _ hread, mt (hiff _).mp fun h => h.noComma (by decide),
    hinjective.ne (by decide)⟩

end SweepReport.Label
