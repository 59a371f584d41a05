import SweepReport.Proofs.Label.Grammar

/-! White space in the text of a label. It may stand around the thread count and the digits and at the
end, and makes no difference as long as there is a thread count: where there is none, white space
before the comma is taken for one. -/
namespace SweepReport.Label
open Text (isBlank Trimmed Blanks)
open Numeral (isDigit digitsValue wordSize readWord)

/-- White space for each place of a label that may have some. -/
structure Spacing where
  beforeCount : List Char
  afterCount : List Char
  beforeDigits : List Char
  afterDigits : List Char
  afterUnit : List Char
  blanksBeforeComma : Blanks beforeCount ∧ Blanks afterCount
  blanksAfterComma : Blanks beforeDigits ∧ Blanks afterDigits ∧ Blanks afterUnit

namespace Spacing

def text (g : Spacing) (count digits : List Char) : String :=
  String.ofList (g.beforeCount ++ count ++ g.afterCount ++
    ',' :: (g.beforeDigits ++ (digits ++ (g.afterDigits ++ (unit ++ g.afterUnit)))))

/-- Blanks behind the comma and behind the digits, as benchmarks write labels. -/
def usual : Spacing := ⟨[], [], [' '], [' '], [], by decide, by decide⟩

/-- The white space before the comma, which a thread count would part. -/
def beforeComma (g : Spacing) : List Char := g.beforeCount ++ g.afterCount

end Spacing

theorem toOption_ofText (s : String) : (ofText s).toOption = ofChars? s.toList := by
  unfold ofText
  split <;> rename_i h <;> rw [h] <;> rfl

theorem ofChars?_append {before : List Char} (hcomma : ',' ∉ before) (after : List Char) :
    ofChars? (before ++ ',' :: after) =
      (threadsOf? before).bind fun t => (batchOf? after).map fun n => ⟨⟨String.ofList t⟩, n⟩ := by
  have hsplit : splitComma? (before ++ ',' :: after) = some (before, after) :=
    splitComma?_eq_some_iff.mpr ⟨rfl, hcomma⟩
  simp only [ofChars?, hsplit]
  cases threadsOf? before <;> cases batchOf? after <;> rfl

section
variable {w v count digits : List Char}

theorem threadsOf?_spaced (hw : Blanks w) (hcount : Trimmed count) (hv : Blanks v)
    (hne : count ≠ []) : threadsOf? (w ++ count ++ v) = some count := by
  have htrim := Text.trim_append hw hcount hv
  rw [threadsOf?_of_trim_ne_nil (htrim.symm ▸ hne), htrim]

theorem readWord_eq_none_iff (hdigits : ∀ c ∈ digits, isDigit c = true) :
    (readWord 10 digits).toOption = none ↔ digits = [] ∨ wordSize ≤ digitsValue digits := by
  have hword (n : UInt64) : (readWord 10 digits).toOption = some n ↔
      digits ≠ [] ∧ digitsValue digits = n.toNat := by
    rw [toOption_eq_some_iff, Numeral.readWord_eq_ok_iff, Numeral.spells_of_digits hdigits]
  rw [Option.eq_none_iff_forall_ne_some]
  simp only [ne_eq, hword]
  constructor
  · intro hnone
    by_contra hother
    obtain ⟨hne, hlt⟩ := not_or.mp hother
    refine hnone (.ofNat (digitsValue digits)) ⟨hne, ?_⟩
    rw [UInt64.toNat_ofNat_of_lt' (Nat.lt_of_not_le hlt)]
  · rintro (hempty | hlarge) n ⟨hne, hvalue⟩
    · exact hne hempty
    · exact absurd n.toNat_lt (Nat.not_lt.mpr (hvalue ▸ hlarge))

theorem outcome_text (g : Spacing) (hcomma : ',' ∉ count) (hdigits : ∀ c ∈ digits, isDigit c = true) :
    (ofText (g.text count digits)).toOption =
      (threadsOf? (g.beforeCount ++ count ++ g.afterCount)).bind fun t =>
        (readWord 10 digits).toOption.map fun n => ⟨⟨String.ofList t⟩, n⟩ := by
  have hblank {w : List Char} (hw : Blanks w) : ',' ∉ w := fun hmem => absurd (hw ',' hmem) (by decide)
  have hbefore : ',' ∉ g.beforeCount ++ count ++ g.afterCount := by
    simp [hcomma, hblank g.blanksBeforeComma.1, hblank g.blanksBeforeComma.2]
  obtain ⟨h₁, h₂, h₃⟩ := g.blanksAfterComma
  rw [toOption_ofText, Spacing.text, String.toList_ofList, ofChars?_append hbefore,
    batchOf?_append hdigits h₁ h₂ h₃]

theorem outcome_of_count (g : Spacing) (hcomma : ',' ∉ count) (hcount : Trimmed count)
    (hdigits : ∀ c ∈ digits, isDigit c = true) (hne : count ≠ []) :
    (ofText (g.text count digits)).toOption =
      (readWord 10 digits).toOption.map fun n => ⟨⟨String.ofList count⟩, n⟩ := by
  rw [outcome_text g hcomma hdigits,
    threadsOf?_spaced g.blanksBeforeComma.1 hcount g.blanksBeforeComma.2 hne]
  rfl

/-- Where a thread count is missing, the last of the white space in its place stands for it. -/
theorem outcome_of_no_count (g : Spacing) (hdigits : ∀ c ∈ digits, isDigit c = true) :
    (ofText (g.text [] digits)).toOption = g.beforeComma.getLast?.bind fun c =>
      (readWord 10 digits).toOption.map fun n => ⟨⟨String.ofList [c]⟩, n⟩ := by
  have hblank : Blanks g.beforeComma := List.forall_mem_append.mpr g.blanksBeforeComma
  rw [outcome_text g List.not_mem_nil hdigits, List.append_nil, ← Spacing.beforeComma,
    threadsOf?_of_blanks hblank, Option.bind_map]
  rfl

end

/-- How a label is spaced makes no difference to what it is read as, but for one case: with no thread
count and a batch that can be read, it is refused with nothing before the comma and accepted with white
space there. Then, and only then, the count of the label has white space at its ends. -/
theorem spacing_matters_iff (g : Spacing) {count digits : List Char} (hcomma : ',' ∉ count)
    (hcount : Trimmed count) (hdigits : ∀ c ∈ digits, isDigit c = true) :
    ((ofText (g.text count digits)).toOption =
        (ofText (Spacing.usual.text count digits)).toOption ↔
      count ≠ [] ∨ g.beforeComma = [] ∨ digits = [] ∨ wordSize ≤ digitsValue digits) ∧
    (count = [] → (ofText (Spacing.usual.text count digits)).toOption = none) ∧
    ∀ l, ofText (g.text count digits) = .ok l →
      (Trimmed l.threads.text.toList ↔ count ≠ []) := by
  by_cases hne : count = []
  · subst hne
    have husual : (ofText (Spacing.usual.text [] digits)).toOption = none :=
      outcome_of_no_count Spacing.usual hdigits
    refine ⟨?_, fun _ => husual, fun l hl => ?_⟩
    · rw [husual, outcome_of_no_count g hdigits, ← readWord_eq_none_iff hdigits,
        ← List.getLast?_eq_none_iff]
      cases g.beforeComma.getLast? <;> simp
    · rw [← toOption_eq_some_iff, outcome_of_no_count g hdigits] at hl
      obtain ⟨c, hlast, hread⟩ := Option.bind_eq_some_iff.mp hl
      obtain ⟨n, -, rfl⟩ := Option.map_eq_some_iff.mp hread
      have hblank : isBlank c = true :=
        List.forall_mem_append.mpr g.blanksBeforeComma c (List.mem_of_getLast? hlast)
      refine iff_of_false (fun htrim => ?_) (fun h => h rfl)
      have hfirst := htrim.first c (by simp)
      rw [hblank] at hfirst
      contradiction
  · refine ⟨?_, fun h => absurd h hne, fun l hl => ?_⟩
    · rw [outcome_of_count g hcomma hcount hdigits hne,
        outcome_of_count Spacing.usual hcomma hcount hdigits hne]
      exact ⟨fun _ => .inl hne, fun _ => rfl⟩
    · rw [← toOption_eq_some_iff, outcome_of_count g hcomma hcount hdigits hne] at hl
      obtain ⟨n, -, rfl⟩ := Option.map_eq_some_iff.mp hl
      exact iff_of_true (by simpa using hcount) hne

def wide : Spacing := ⟨['\t'], ['\u3000'], [], ['\n'], [' '], by decide, by decide⟩

theorem wide_label_read :
    (ofText "\t4\u3000,16\nfiles ").toOption = (ofText "4, 16 files").toOption ∧
    ofText "\t4\u3000,16\nfiles " = .ok (.of "4" 16) := by
  have hcount : Trimmed ['4'] := Text.trimmed_trim ['4']
  have hdigits : ∀ c ∈ ['1', '6'], isDigit c = true := List.all_eq_true.mp rfl
  have hsame := (spacing_matters_iff wide (by decide) hcount hdigits).1.mpr (.inl (by decide))
  have hwide : wide.text ['4'] ['1', '6'] = "\t4\u3000,16\nfiles " := by decide
  have husual : Spacing.usual.text ['4'] ['1', '6'] = "4, 16 files" := by decide
  rw [hwide, husual] at hsame
  refine ⟨hsame, toOption_eq_some_iff.mp ?_⟩
  rw [hsame]
  decide

/-- Without a thread count a label is refused, and with a blank before the comma it is not. -/
theorem blank_count_is_read :
    ofText ", 16 files" = .error ⟨", 16 files"⟩ ∧ ofText " , 16 files" = .ok (.of " " 16) := by
  refine ⟨rfl, ofText_eq_ok_iff.mpr ?_⟩
  decide

end SweepReport.Label
