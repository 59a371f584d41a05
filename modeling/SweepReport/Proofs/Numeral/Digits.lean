import Mathlib.Algebra.Ring.Nat
import SweepReport.Numeral.Decimal

/-! Whole numbers written in digits. What is written for a number reads back as the number, and only
zero starts with a zero. -/
namespace SweepReport.Numeral

theorem isDigit_eq (c : Char) : isDigit c = c.isDigit := by
  rw [Bool.eq_iff_iff]
  simp [isDigit, Char.isDigit, Char.le_def]

theorem isDigit_of_mem_decimalText {n : Nat} {c : Char} (h : c ∈ decimalText n) :
    isDigit c = true := by
  rw [isDigit_eq]
  exact Nat.isDigit_of_mem_toDigits (by decide) (by decide) h

theorem decimalText_ne_nil (n : Nat) : decimalText n ≠ [] := Nat.toDigits_ne_nil

theorem decimalText_of_lt {n : Nat} (h : n < 10) : decimalText n = [n.digitChar] :=
  Nat.toDigits_of_lt_base h

theorem decimalText_of_le {n : Nat} (h : 10 ≤ n) :
    decimalText n = decimalText (n / 10) ++ [(n % 10).digitChar] :=
  Nat.toDigits_of_base_le (by decide) h

section
variable {ds rest : List Char}

theorem takeWhile_isDigit_append (hds : ∀ c ∈ ds, isDigit c = true)
    (hrest : ∀ c ∈ rest.head?, isDigit c = false) : (ds ++ rest).takeWhile isDigit = ds := by
  rw [List.takeWhile_append_of_pos hds]
  cases rest with
  | nil => simp
  | cons c rest => rw [List.takeWhile_cons_of_neg (by simp [hrest c rfl]), List.append_nil]

theorem dropWhile_isDigit_append (hds : ∀ c ∈ ds, isDigit c = true)
    (hrest : ∀ c ∈ rest.head?, isDigit c = false) : (ds ++ rest).dropWhile isDigit = rest := by
  rw [List.dropWhile_append_of_pos hds]
  cases rest with
  | nil => rfl
  | cons c rest => exact List.dropWhile_cons_of_neg (by simp [hrest c rfl])

end

theorem digitsValue_eq (cs : List Char) : digitsValue cs = Nat.ofDigitChars 10 cs 0 := by
  simp only [digitsValue, Nat.ofDigitChars, Nat.mul_comm]

@[simp] theorem digitsValue_decimalText (n : Nat) : digitsValue (decimalText n) = n := by
  rw [digitsValue_eq]
  exact Nat.ofDigitChars_ten_toDigits

theorem digitsValue_append (xs ys : List Char) :
    digitsValue (xs ++ ys) = 10 ^ ys.length * digitsValue xs + digitsValue ys := by
  simp only [digitsValue_eq, Nat.ofDigitChars_append]
  exact Nat.ofDigitChars_eq_ofDigitChars_zero

@[simp] theorem digitsValue_zeros (n : Nat) : digitsValue (List.replicate n '0') = 0 := by
  rw [digitsValue_eq, Nat.ofDigitChars_replicate_zero, Nat.mul_zero]

theorem head?_decimalText {n : Nat} (hn : 0 < n) : (decimalText n).head? ≠ some '0' := by
  induction n using Nat.strongRecOn with
  | ind n ih =>
    by_cases hlt : n < 10
    · have hdigits : ∀ d : Fin 10, 0 < d.val → [d.val.digitChar].head? ≠ some '0' := by decide
      rw [decimalText_of_lt hlt]
      exact hdigits ⟨n, hlt⟩ hn
    · have hfirst : ((decimalText (n / 10)).head?).isSome := by
        simpa using decimalText_ne_nil (n / 10)
      rw [decimalText_of_le (by omega), List.head?_append, Option.or_of_isSome hfirst]
      exact ih _ (by omega) (Nat.div_pos (by omega) (by decide))

theorem length_decimalText {n : Nat} (hn : 0 < n) :
    10 ^ ((decimalText n).length - 1) ≤ n ∧ n < 10 ^ (decimalText n).length := by
  have hpos : 0 < (decimalText n).length := Nat.length_toDigits_pos
  refine ⟨?_, (Nat.length_toDigits_le_iff (by decide) hpos).mp (Nat.le_refl _)⟩
  by_cases hone : (decimalText n).length = 1
  · rw [hone]
    exact hn
  · refine Nat.le_of_not_lt fun hlt => ?_
    have hle := (Nat.length_toDigits_le_iff (n := n) (b := 10) (by decide)
      (show 0 < (decimalText n).length - 1 by omega)).mpr hlt
    change (decimalText n).length ≤ _ at hle
    omega

/-- Each factor ten is one more digit. -/
theorem length_decimalText_mul_pow {n : Nat} (hn : 0 < n) (k : Nat) :
    (decimalText (n * 10 ^ k)).length = (decimalText n).length + k := by
  induction k with
  | zero => simp
  | succ k ih =>
    have hpos : 0 < n * 10 ^ k := Nat.mul_pos hn (Nat.pow_pos (by decide))
    rw [Nat.pow_succ, ← Nat.mul_assoc, decimalText_of_le (by omega),
      Nat.mul_div_cancel _ (by decide), List.length_append, ih, List.length_singleton, Nat.add_assoc]

theorem toNat_of_isDigit {c : Char} (h : isDigit c = true) : 48 ≤ c.toNat ∧ c.toNat ≤ 57 := by
  simpa [isDigit, Char.le_def, UInt32.le_iff_toNat_le] using h

theorem digitValue?_of_isDigit {c : Char} (h : isDigit c = true) :
    digitValue? 10 c = some (c.toNat - '0'.toNat) := by
  have hc : '0' ≤ c ∧ c ≤ '9' := by simpa [isDigit] using h
  have hlt : c.toNat - '0'.toNat < 10 := by
    have hbounds := toNat_of_isDigit h
    have h0 : '0'.toNat = 48 := rfl
    omega
  simp only [digitValue?, if_pos hc, if_pos hlt]

theorem le_ofDigitChars (v : Nat) (cs : List Char) : v ≤ Nat.ofDigitChars 10 cs v := by
  rw [Nat.ofDigitChars_eq_ofDigitChars_zero]
  exact Nat.le_trans (Nat.le_mul_of_pos_left v (Nat.pow_pos (by decide))) (Nat.le_add_right _ _)

/-- Digits are read as the number they write, as long as it is a word. -/
theorem readDigits_eq {cs : List Char} (hcs : ∀ c ∈ cs, isDigit c = true) {v : Nat}
    (hv : Nat.ofDigitChars 10 cs v < wordSize) :
    readDigits 10 v cs = .ok (Nat.ofDigitChars 10 cs v) := by
  induction cs generalizing v with
  | nil => simp [readDigits]
  | cons c cs ih =>
    obtain ⟨hc, hrest⟩ := List.forall_mem_cons.mp hcs
    rw [Nat.ofDigitChars_cons, Nat.mul_comm] at hv ⊢
    have hfirst : v * 10 + (c.toNat - '0'.toNat) < wordSize :=
      Nat.lt_of_le_of_lt (le_ofDigitChars _ cs) hv
    simp only [readDigits, digitValue?_of_isDigit hc, if_pos hfirst]
    exact ih hrest hv

theorem readWord_eq {cs : List Char} (hne : cs ≠ []) (hcs : ∀ c ∈ cs, isDigit c = true)
    (hv : digitsValue cs < wordSize) : readWord 10 cs = .ok (.ofNat (digitsValue cs)) := by
  rw [digitsValue_eq] at hv ⊢
  have hplus : isDigit '+' = false := by decide
  unfold readWord
  split
  · contradiction
  · simp_all
  · simp_all
  · rw [readDigits_eq hcs hv]
    rfl

theorem readWord_decimalText (w : UInt64) : readWord 10 (decimalText w.toNat) = .ok w := by
  have hv : digitsValue (decimalText w.toNat) < wordSize := by
    rw [digitsValue_decimalText]
    exact w.toNat_lt
  rw [readWord_eq (decimalText_ne_nil _) (fun _ => isDigit_of_mem_decimalText) hv,
    digitsValue_decimalText, UInt64.ofNat_toNat]

end SweepReport.Numeral
