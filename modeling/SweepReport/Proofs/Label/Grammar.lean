import SweepReport.Proofs.Label.Reading
import SweepReport.Proofs.Numeral.Word

/-! The texts that are labels. A text is read when it is spelled as some text without commas, a comma,
digits and the word for the unit, with white space around the digits and at the end, and the digits
write a word. The thread count is what the first part holds between its white space. -/
namespace SweepReport.Label
open Text (isBlank Trimmed Blanks)
open Numeral (isDigit digitsValue wordSize readWord readWord_eq_ok_iff spells_of_digits)

/-- The thread count in the text before the comma: the text without the white space at its ends, and
of white space alone the last character. -/
inductive CountIn : List Char → List Char → Prop
  | text {w t v : List Char} : Blanks w → t ≠ [] → Trimmed t → Blanks v → CountIn (w ++ t ++ v) t
  | blank {w : List Char} {c : Char} : Blanks w → isBlank c = true → CountIn (w ++ [c]) [c]

/-- The parts of a text that is read as a label. -/
structure Spelling where
  before : List Char
  afterComma : List Char
  digits : List Char
  afterDigits : List Char
  afterUnit : List Char
  occupied : before ≠ []
  noComma : ',' ∉ before
  counted : digits ≠ []
  decimal : ∀ c ∈ digits, isDigit c = true
  fits : digitsValue digits < wordSize
  blanks : Blanks afterComma ∧ Blanks afterDigits ∧ Blanks afterUnit

def Spelling.chars (p : Spelling) : List Char :=
  p.before ++ ',' :: (p.afterComma ++ (p.digits ++ (p.afterDigits ++ (unit ++ p.afterUnit))))

theorem threadsOf?_of_blanks {cs : List Char} (h : Blanks cs) :
    threadsOf? cs = cs.getLast?.map ([·]) := by
  rw [threadsOf?, Text.trim_of_blanks h]

theorem threadsOf?_of_not_blanks {cs : List Char} (h : ¬ Blanks cs) :
    threadsOf? cs = some (Text.trim cs) :=
  threadsOf?_of_trim_ne_nil (mt Text.trim_eq_nil_iff.mp h)

theorem threadsOf?_eq_some_iff {cs t : List Char} : threadsOf? cs = some t ↔ CountIn cs t := by
  constructor
  · intro h
    by_cases hcs : Blanks cs
    · rw [threadsOf?_of_blanks hcs] at h
      obtain ⟨c, hlast, rfl⟩ := Option.map_eq_some_iff.mp h
      obtain ⟨w, rfl⟩ := List.getLast?_eq_some_iff.mp hlast
      obtain ⟨hw, hc⟩ := List.forall_mem_append.mp hcs
      exact .blank hw (hc c (List.mem_singleton.mpr rfl))
    · rw [threadsOf?_of_not_blanks hcs, Option.some.injEq] at h
      obtain ⟨w, v, hsplit, hw, hv⟩ := Text.exists_trim cs
      rw [hsplit, h]
      have hne : t ≠ [] := h ▸ mt Text.trim_eq_nil_iff.mp hcs
      exact .text hw hne (h ▸ Text.trimmed_trim cs) hv
  · intro h
    cases h with
    | text hw hne ht hv =>
      have htrim := Text.trim_append hw ht hv
      rw [threadsOf?_of_trim_ne_nil (htrim.symm ▸ hne), htrim]
    | @blank w c hw hc =>
      have hall : Blanks (w ++ [c]) := List.forall_mem_append.mpr ⟨hw, by simpa using hc⟩
      rw [threadsOf?_of_blanks hall, List.getLast?_concat]
      rfl

theorem isSome_threadsOf?_iff {cs : List Char} : (threadsOf? cs).isSome ↔ cs ≠ [] := by
  by_cases hcs : Blanks cs
  · rw [threadsOf?_of_blanks hcs]
    simp
  · have hne : cs ≠ [] := fun h => hcs (by simp [h, Blanks])
    simp [threadsOf?_of_not_blanks hcs, hne]

theorem batchOf?_eq_some_iff {after : List Char} {w : UInt64} : batchOf? after = some w ↔
    ∃ w₁ digits w₂ w₃, after = w₁ ++ (digits ++ (w₂ ++ (unit ++ w₃))) ∧
      (Blanks w₁ ∧ Blanks w₂ ∧ Blanks w₃) ∧ digits ≠ [] ∧ (∀ c ∈ digits, isDigit c = true) ∧
      digitsValue digits = w.toNat := by
  constructor
  · intro h
    rw [batchOf?] at h
    split at h
    · rename_i hunit
      obtain ⟨hword, hend⟩ := Bool.and_eq_true_iff.mp hunit
      obtain ⟨w₃, hrest⟩ := List.isPrefixOf_iff_prefix.mp hword
      obtain ⟨w₁, hafter, h₁⟩ := Text.exists_trimStart after
      obtain ⟨w₂, hdrop, h₂⟩ := Text.exists_trimStart ((Text.trimStart after).dropWhile isDigit)
      have hdigits : ∀ c ∈ (Text.trimStart after).takeWhile isDigit, isDigit c = true :=
        fun _ => List.mem_takeWhile_imp
      have hspells := readWord_eq_ok_iff.mp (toOption_eq_some_iff.mp h)
      rw [← hrest, List.drop_left] at hend
      refine ⟨w₁, (Text.trimStart after).takeWhile isDigit, w₂, w₃, ?_, ⟨h₁, h₂, ?_⟩, ?_⟩
      · rw [hrest, ← hdrop, List.takeWhile_append_dropWhile, ← hafter]
      · exact List.all_eq_true.mp hend
      · obtain ⟨hne, hvalue⟩ := (spells_of_digits hdigits).mp hspells
        exact ⟨hne, hdigits, hvalue⟩
    · contradiction
  · rintro ⟨w₁, digits, w₂, w₃, rfl, ⟨h₁, h₂, h₃⟩, hne, hdigits, hvalue⟩
    rw [batchOf?_append hdigits h₁ h₂ h₃, toOption_eq_some_iff, readWord_eq_ok_iff,
      spells_of_digits hdigits]
    exact ⟨hne, hvalue⟩

theorem ofText_eq_ok_iff_spelled {s : String} {l : Label} :
    ofText s = .ok l ↔ ∃ p : Spelling, p.chars = s.toList ∧
      CountIn p.before l.threads.text.toList ∧ digitsValue p.digits = l.batch.toNat := by
  rw [ofText_eq_ok_iff, ofChars?_eq_some_iff]
  constructor
  · rintro ⟨before, after, hcs, hcomma, hthreads, hbatch⟩
    obtain ⟨w₁, digits, w₂, w₃, rfl, hblanks, hne, hdigits, hvalue⟩ :=
      batchOf?_eq_some_iff.mp hbatch
    have hbefore : before ≠ [] := isSome_threadsOf?_iff.mp (by rw [hthreads]; rfl)
    have hfits : digitsValue digits < wordSize := hvalue ▸ l.batch.toNat_lt
    exact ⟨⟨before, w₁, digits, w₂, w₃, hbefore, hcomma, hne, hdigits, hfits, hblanks⟩, hcs.symm,
      threadsOf?_eq_some_iff.mp hthreads, hvalue⟩
  · rintro ⟨p, hchars, hcount, hvalue⟩
    exact ⟨p.before, _, hchars.symm, p.noComma, threadsOf?_eq_some_iff.mpr hcount,
      batchOf?_eq_some_iff.mpr ⟨_, _, _, _, rfl, p.blanks, p.counted, p.decimal, hvalue⟩⟩

theorem exists_ofText_iff {s : String} :
    (∃ l, ofText s = .ok l) ↔ ∃ p : Spelling, p.chars = s.toList := by
  simp only [ofText_eq_ok_iff_spelled]
  constructor
  · rintro ⟨l, p, hchars, -⟩
    exact ⟨p, hchars⟩
  · rintro ⟨p, hchars⟩
    obtain ⟨t, ht⟩ := Option.isSome_iff_exists.mp (isSome_threadsOf?_iff.mpr p.occupied)
    refine ⟨⟨⟨String.ofList t⟩, .ofNat (digitsValue p.digits)⟩, p, hchars, ?_, ?_⟩
    · rw [String.toList_ofList]
      exact threadsOf?_eq_some_iff.mp ht
    · rw [UInt64.toNat_ofNat_of_lt' p.fits]

theorem ofText_eq_error {s : String} {u : UnreadableLabel} (h : ofText s = .error u) :
    u = ⟨s⟩ := by
  unfold ofText at h
  split at h
  · contradiction
  · cases h
    rfl

end SweepReport.Label
