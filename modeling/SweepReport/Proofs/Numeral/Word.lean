import SweepReport.Fallible
import SweepReport.Proofs.Numeral.Digits

/-! The texts that are read as words: digits, with a plus sign before them or without one, whose number
is below the size of a word. -/
namespace SweepReport.Numeral

/-- The text is digits, a plus sign may stand before them, and the word is their number. -/
def Spells (cs : List Char) (w : UInt64) : Prop :=
  ∃ digits, (cs = digits ∨ cs = '+' :: digits) ∧ digits ≠ [] ∧
    (∀ c ∈ digits, isDigit c = true) ∧ digitsValue digits = w.toNat

theorem digitValue?_of_not_isDigit {c : Char} (h : isDigit c = false) :
    digitValue? 10 c = none := by
  have hc : ¬ ('0' ≤ c ∧ c ≤ '9') := by simpa [isDigit] using h
  simp only [digitValue?, hc, if_false, ite_eq_right_iff]
  intro hvalue
  split at hvalue
  · omega
  · split at hvalue <;> omega

theorem isDigit_of_digitValue? {c : Char} {d : Nat} (h : digitValue? 10 c = some d) :
    isDigit c = true ∧ c.toNat - '0'.toNat = d := by
  cases hc : isDigit c with
  | true =>
    rw [digitValue?_of_isDigit hc, Option.some.injEq] at h
    exact ⟨rfl, h⟩
  | false =>
    rw [digitValue?_of_not_isDigit hc] at h
    contradiction

theorem readDigits_eq_ok_iff {cs : List Char} {v n : Nat} (hv : v < wordSize) :
    readDigits 10 v cs = .ok n ↔
      (∀ c ∈ cs, isDigit c = true) ∧ Nat.ofDigitChars 10 cs v = n ∧ n < wordSize := by
  constructor
  · intro h
    induction cs generalizing v with
    | nil =>
      cases h
      exact ⟨by simp, Nat.ofDigitChars_nil, hv⟩
    | cons c cs ih =>
      rw [readDigits] at h
      split at h
      · contradiction
      · rename_i d hd
        obtain ⟨hc, rfl⟩ := isDigit_of_digitValue? hd
        split at h
        · rename_i hlt
          obtain ⟨hcs, hn, hsize⟩ := ih hlt h
          refine ⟨List.forall_mem_cons.mpr ⟨hc, hcs⟩, ?_, hsize⟩
          rw [Nat.ofDigitChars_cons, Nat.mul_comm, hn]
        · contradiction
  · rintro ⟨hcs, rfl, hn⟩
    exact readDigits_eq hcs hn

theorem readDigits_eq_word_iff {cs : List Char} {w : UInt64} :
    UInt64.ofNat <$> readDigits 10 0 cs = .ok w ↔
      (∀ c ∈ cs, isDigit c = true) ∧ digitsValue cs = w.toNat := by
  have hzero : (0 : Nat) < wordSize := by decide
  simp only [map_eq_ok_iff, readDigits_eq_ok_iff hzero, ← digitsValue_eq]
  constructor
  · rintro ⟨n, ⟨hcs, hn, hlt⟩, rfl⟩
    exact ⟨hcs, by rw [hn, UInt64.toNat_ofNat_of_lt' hlt]⟩
  · rintro ⟨hcs, hvalue⟩
    exact ⟨w.toNat, ⟨hcs, hvalue, w.toNat_lt⟩, UInt64.ofNat_toNat⟩

theorem spells_plus_iff {cs : List Char} {w : UInt64} :
    Spells ('+' :: cs) w ↔
      cs ≠ [] ∧ (∀ c ∈ cs, isDigit c = true) ∧ digitsValue cs = w.toNat := by
  constructor
  · rintro ⟨digits, heq | heq, hne, hdigits, hvalue⟩
    · exact absurd (hdigits '+' (heq ▸ List.mem_cons_self)) (by decide)
    · cases heq
      exact ⟨hne, hdigits, hvalue⟩
  · rintro ⟨hne, hcs, hvalue⟩
    exact ⟨cs, .inr rfl, hne, hcs, hvalue⟩

theorem spells_bare_iff {cs : List Char} {w : UInt64} (hplus : ∀ ds, cs ≠ '+' :: ds) :
    Spells cs w ↔ cs ≠ [] ∧ (∀ c ∈ cs, isDigit c = true) ∧ digitsValue cs = w.toNat := by
  constructor
  · rintro ⟨digits, rfl | heq, hne, hdigits, hvalue⟩
    · exact ⟨hne, hdigits, hvalue⟩
    · exact absurd heq (hplus digits)
  · rintro ⟨hne, hcs, hvalue⟩
    exact ⟨cs, .inl rfl, hne, hcs, hvalue⟩

theorem spells_of_digits {cs : List Char} {w : UInt64} (hcs : ∀ c ∈ cs, isDigit c = true) :
    Spells cs w ↔ cs ≠ [] ∧ digitsValue cs = w.toNat := by
  have hplus : ∀ ds, cs ≠ '+' :: ds := fun ds h =>
    absurd (hcs '+' (h ▸ List.mem_cons_self)) (by decide)
  rw [spells_bare_iff hplus, and_iff_right hcs]

/-- A text is read as the word that it spells, and any other text is refused. -/
theorem readWord_eq_ok_iff {cs : List Char} {w : UInt64} :
    readWord 10 cs = .ok w ↔ Spells cs w := by
  unfold readWord
  split
  · simp [Spells]
  · simp [spells_plus_iff]
  · rename_i ds hds
    have hne : ds ≠ [] := fun h => hds (by rw [h])
    rw [readDigits_eq_word_iff, spells_plus_iff, and_iff_right hne]
  · rename_i hne _ hplus
    rw [readDigits_eq_word_iff, spells_bare_iff hplus, and_iff_right hne]

theorem word?_eq_some_iff {s : String} {w : UInt64} : word? s = some w ↔ Spells s.toList w := by
  rw [word?, toOption_eq_some_iff, readWord_eq_ok_iff]

end SweepReport.Numeral
