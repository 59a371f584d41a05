import SweepReport.Json.Reader
import SweepReport.Json.Writer
import SweepReport.Proofs.Numeral.Nearest

/-! Numbers that were written are read as the same numbers. A whole number is written with one place
after the point, and is read with that place. -/
namespace SweepReport.Json
open Numeral

def Number.asRead : Number → Number
  | .integer negative value => .integer negative value
  | .decimal ⟨negative, d, k⟩ =>
    let lead := k + (decimalText d).length - 1
    if d = 0 then .decimal ⟨negative, 0, -1⟩
    else if (window.first ≤ lead ∧ lead ≤ window.last) ∧ 0 ≤ k then
      .decimal ⟨negative, d * 10 ^ k.toNat * 10, -1⟩
    else .decimal ⟨negative, d, k⟩

theorem toFloat_asRead (n : Number) : n.asRead.toFloat = n.toFloat := by
  cases n with
  | integer negative value => rfl
  | decimal d =>
    obtain ⟨negative, d, k⟩ := d
    simp only [Number.asRead]
    split
    · rename_i hd
      simp [Number.toFloat, Decimal.toFloat, Decimal.code, hd]
    · split
      · rename_i h
        simp only [Number.toFloat, Decimal.toFloat, code_mul_ten _ _ h.2]
      · rfl

/-- What does not go on with a number. -/
def Ends (rest : List Char) : Prop :=
  ∀ c ∈ rest.head?, isDigit c = false ∧ c ≠ '.' ∧ c ≠ 'e' ∧ c ≠ 'E'

section
variable {ds rest : List Char}

/-- Digits that may stand before a point: a leading zero stands alone. -/
structure Whole (ds : List Char) : Prop where
  digits : ∀ c ∈ ds, isDigit c = true
  nonempty : ds ≠ []
  lead : ds.head? = some '0' → ds = ['0']

theorem whole_decimalText (n : Nat) : Whole (decimalText n) := by
  refine ⟨fun _ => isDigit_of_mem_decimalText, decimalText_ne_nil n, fun h => ?_⟩
  rcases Nat.eq_zero_or_pos n with rfl | hn
  · rfl
  · exact absurd h (head?_decimalText hn)

theorem wholeDigits?_append (hds : Whole ds) (hrest : ∀ c ∈ rest.head?, isDigit c = false) :
    wholeDigits? (ds ++ rest) = some (ds, rest) := by
  obtain ⟨hdigits, hne, hlead⟩ := hds
  rw [wholeDigits?, takeWhile_isDigit_append hdigits hrest, dropWhile_isDigit_append hdigits hrest]
  split
  · exact absurd rfl hne
  · rfl
  · rename_i r _ hr
    exact absurd (hlead rfl) (by simpa using hr)
  · rfl

theorem someDigits?_append (hdigits : ∀ c ∈ ds, isDigit c = true) (hne : ds ≠ [])
    (hrest : ∀ c ∈ rest.head?, isDigit c = false) :
    someDigits? (ds ++ rest) = some (ds, rest) := by
  rw [someDigits?, takeWhile_isDigit_append hdigits hrest, dropWhile_isDigit_append hdigits hrest]
  simp [hne]

theorem fraction?_point (hdigits : ∀ c ∈ ds, isDigit c = true) (hne : ds ≠ [])
    (hrest : ∀ c ∈ rest.head?, isDigit c = false) :
    fraction? ('.' :: (ds ++ rest)) = some (some ds, rest) := by
  rw [fraction?, someDigits?_append hdigits hne hrest]
  rfl

theorem fraction?_none (hrest : ∀ c ∈ rest.head?, c ≠ '.') : fraction? rest = some (none, rest) := by
  unfold fraction?
  split
  · simp at hrest
  · rfl

theorem exponent?_none (hrest : ∀ c ∈ rest.head?, c ≠ 'e' ∧ c ≠ 'E') :
    exponent? rest = some (none, rest) := by
  cases rest with
  | nil => rfl
  | cons c rest => simpa [exponent?] using hrest

theorem exponent?_signed (e : Int) (hrest : ∀ c ∈ rest.head?, isDigit c = false) :
    exponent? ('e' :: (if e < 0 then '-' else '+') :: (decimalText e.natAbs ++ rest)) =
      some (some e, rest) := by
  have hread : someDigits? (decimalText e.natAbs ++ rest) = some (decimalText e.natAbs, rest) :=
    someDigits?_append (fun _ => isDigit_of_mem_decimalText) (decimalText_ne_nil _) hrest
  simp only [exponent?, true_or, if_true]
  split
  · simp only [signedDigits?, hread, Option.map_some, digitsValue_decimalText]
    have : -(e.natAbs : Int) = e := by omega
    rw [this]
  · simp only [signedDigits?, hread, Option.map_some, digitsValue_decimalText]
    have : (e.natAbs : Int) = e := by omega
    rw [this]

/-- The point among the digits of a number, with zeros in front where digits are missing. -/
theorem placePoint_eq (d : Nat) {places : Nat} (hplaces : places ≠ 0) :
    ∃ whole fraction, placePoint (decimalText d) places = whole ++ '.' :: fraction ∧
      Whole whole ∧ (∀ c ∈ fraction, isDigit c = true) ∧ fraction.length = places ∧
      digitsValue (whole ++ fraction) = d := by
  obtain ⟨padded, hpadded⟩ : ∃ padded, padded =
    List.replicate (places + 1 - (decimalText d).length) '0' ++ decimalText d := ⟨_, rfl⟩
  have hlength : places < padded.length := by
    simp only [hpadded, List.length_append, List.length_replicate]
    omega
  have hdigits : ∀ c ∈ padded, isDigit c = true := by
    intro c hc
    rcases List.mem_append.mp (hpadded ▸ hc) with hc | hc
    · rw [List.eq_of_mem_replicate hc]
      decide
    · exact isDigit_of_mem_decimalText hc
  refine ⟨padded.take (padded.length - places), padded.drop (padded.length - places), ?_,
    ⟨fun c hc => hdigits c (List.mem_of_mem_take hc), ?_, ?_⟩,
    fun c hc => hdigits c (List.mem_of_mem_drop hc), ?_, ?_⟩
  · rw [placePoint, ← hpadded, if_neg hplaces]
  · rw [← List.length_pos_iff, List.length_take]
    omega
  · intro hlead
    by_cases hshort : (decimalText d).length ≤ places
    · -- Zeros were put in front, and one of them stands before the point.
      have hone : padded.length - places = 1 := by
        simp only [hpadded, List.length_append, List.length_replicate]
        omega
      rw [hone, List.take_one] at hlead ⊢
      cases hhead : padded.head? with
      | none => simp [hhead] at hlead
      | some c => simpa [hhead] using hlead
    · have hplain : padded = decimalText d := by
        rw [hpadded, Nat.sub_eq_zero_of_le (by omega), List.replicate_zero, List.nil_append]
      have hzero : d = 0 := by
        rw [List.head?_take, if_neg (by omega), hplain] at hlead
        exact Nat.eq_zero_of_not_pos fun hd => head?_decimalText hd hlead
      have hone : (decimalText 0).length = 1 := rfl
      rw [hzero, hone] at hshort
      omega
  · rw [List.length_drop]
    omega
  · rw [List.take_append_drop, hpadded, digitsValue_append]
    simp

theorem Ends.digit (h : Ends rest) : ∀ c ∈ rest.head?, isDigit c = false := fun c hc => (h c hc).1

theorem Ends.exponent (h : Ends rest) : exponent? rest = some (none, rest) :=
  exponent?_none fun c hc => (h c hc).2.2

theorem unsigned?_integer (negative : Bool) (n : Nat) (hrest : Ends rest)
    (hfinite : (Number.integer negative n).toFloat.isFinite) :
    unsigned? negative (decimalText n ++ rest) = some (.integer negative n, rest) := by
  have hwhole := wholeDigits?_append (whole_decimalText n) hrest.digit
  have hfraction := fraction?_none fun c hc => (hrest c hc).2.1
  simp [unsigned?, hwhole, hfraction, hrest.exponent, inRange?, hfinite]

theorem unsigned?_point {whole fraction : List Char} (negative : Bool) (hwhole : Whole whole)
    (hfraction : ∀ c ∈ fraction, isDigit c = true) (hne : fraction ≠ []) (hrest : Ends rest)
    (hfinite : (Number.decimal ⟨negative, digitsValue (whole ++ fraction),
      -fraction.length⟩).toFloat.isFinite) :
    unsigned? negative (whole ++ '.' :: (fraction ++ rest)) =
      some (.decimal ⟨negative, digitsValue (whole ++ fraction), -fraction.length⟩, rest) := by
  have hw : wholeDigits? (whole ++ '.' :: (fraction ++ rest)) =
      some (whole, '.' :: (fraction ++ rest)) := wholeDigits?_append hwhole (by simp [isDigit])
  have hf := fraction?_point hfraction hne hrest.digit
  simp [unsigned?, hw, hf, hrest.exponent, inRange?, hfinite]

theorem unsigned?_exponentText (negative : Bool) (d : Nat) (lead : Int) (hrest : Ends rest)
    (hfinite : (Number.decimal ⟨negative, d, lead - ((decimalText d).length - 1)⟩).toFloat.isFinite) :
    unsigned? negative (exponentText (decimalText d) lead ++ rest) =
      some (.decimal ⟨negative, d, lead - ((decimalText d).length - 1)⟩, rest) := by
  obtain ⟨c, r, hdigits⟩ := List.exists_cons_of_ne_nil (decimalText_ne_nil d)
  have hall : ∀ x ∈ c :: r, isDigit x = true := by
    rw [← hdigits]
    exact fun _ => isDigit_of_mem_decimalText
  have hvalue : digitsValue (c :: r) = d := by rw [← hdigits, digitsValue_decimalText]
  have hwhole : Whole [c] := ⟨by simpa using hall c (by simp), by simp, by simp⟩
  have he := exponent?_signed lead hrest.digit
  obtain ⟨tail, htail⟩ : ∃ tail, tail =
    'e' :: (if lead < 0 then '-' else '+') :: (decimalText lead.natAbs ++ rest) := ⟨_, rfl⟩
  rw [← htail] at he
  rw [hdigits] at hfinite ⊢
  cases r with
  | nil =>
    have hw : wholeDigits? ([c] ++ tail) = some ([c], tail) :=
      wholeDigits?_append hwhole (by simp [htail, isDigit])
    have hf : fraction? tail = some (none, tail) := fraction?_none (by simp [htail])
    have htext : exponentText [c] lead ++ rest = [c] ++ tail := by simp [exponentText, htail]
    rw [htext]
    simp_all [unsigned?, inRange?]
  | cons c' r =>
    have hw : wholeDigits? ([c] ++ '.' :: (c' :: r ++ tail)) = some ([c], '.' :: (c' :: r ++ tail)) :=
      wholeDigits?_append hwhole (by simp [isDigit])
    have hf : fraction? ('.' :: (c' :: r ++ tail)) = some (some (c' :: r), tail) :=
      fraction?_point (fun x hx => hall x (List.mem_cons_of_mem c hx)) (by simp)
        (by simp [htail, isDigit])
    have htext : exponentText (c :: c' :: r) lead ++ rest = [c] ++ '.' :: (c' :: r ++ tail) := by
      simp [exponentText, htail]
    rw [htext]
    simp_all [unsigned?, inRange?]

theorem unsigned?_whole (negative : Bool) (n : Nat) (hrest : Ends rest)
    (hfinite : (Number.decimal ⟨negative, n * 10, -1⟩).toFloat.isFinite) :
    unsigned? negative (decimalText n ++ ".0".toList ++ rest) =
      some (.decimal ⟨negative, n * 10, -1⟩, rest) := by
  have hvalue : digitsValue (decimalText n ++ ['0']) = n * 10 := by
    rw [digitsValue_append, digitsValue_decimalText]
    exact Nat.mul_comm 10 n
  have hread := unsigned?_point negative (whole_decimalText n)
    (List.forall_mem_singleton.mpr rfl : ∀ c ∈ ['0'], isDigit c = true) (List.cons_ne_nil _ _) hrest
    (by rwa [hvalue])
  rw [hvalue] at hread
  rwa [List.append_assoc]

theorem unsigned?_scientific (negative : Bool) (d : Nat) (k : Int) (hrest : Ends rest)
    (hfinite : (Number.decimal ⟨negative, d, k⟩).asRead.toFloat.isFinite) :
    unsigned? negative (scientific window false d k ++ rest) =
      some ((Number.decimal ⟨negative, d, k⟩).asRead, rest) := by
  simp only [Number.asRead] at hfinite ⊢
  simp only [scientific, withSign, Bool.false_eq_true, if_false]
  by_cases hd : d = 0
  · rw [if_pos hd] at hfinite
    rw [if_pos hd, if_pos hd]
    exact unsigned?_whole negative 0 hrest hfinite
  rw [if_neg hd] at hfinite
  rw [if_neg hd, if_neg hd]
  by_cases hwindow : window.first ≤ k + (decimalText d).length - 1 ∧
      k + (decimalText d).length - 1 ≤ window.last
  · rw [if_pos hwindow]
    by_cases hk : 0 ≤ k
    · rw [if_pos ⟨hwindow, hk⟩] at hfinite
      rw [if_pos hk, if_pos ⟨hwindow, hk⟩]
      exact unsigned?_whole negative _ hrest hfinite
    · rw [if_neg (fun h => hk h.2)] at hfinite
      rw [if_neg hk, if_neg (fun h => hk h.2)]
      obtain ⟨whole, fraction, htext, hwhole, hfraction, hlength, hvalue⟩ :=
        placePoint_eq d (show (-k).toNat ≠ 0 by omega)
      have hexponent : -(fraction.length : Int) = k := by omega
      have hne : fraction ≠ [] := by
        rw [← List.length_pos_iff]
        omega
      rw [htext, List.append_assoc, List.cons_append,
        unsigned?_point negative hwhole hfraction hne hrest (by rwa [hvalue, hexponent]), hvalue,
        hexponent]
  · rw [if_neg (fun h => hwindow h.1)] at hfinite
    rw [if_neg hwindow, if_neg (fun h => hwindow h.1)]
    have hexponent : k + (decimalText d).length - 1 - ((decimalText d).length - 1) = k := by omega
    rw [unsigned?_exponentText negative d _ hrest (by rwa [hexponent]), hexponent]

/-- What is read as a number without its sign starts with a digit. -/
theorem exists_digit_of_unsigned? {negative : Bool} {cs : List Char} {p : Number × List Char}
    (h : unsigned? negative cs = some p) : ∃ c r, cs = c :: r ∧ isDigit c = true := by
  obtain ⟨⟨whole, r⟩, hwhole, -⟩ := Option.bind_eq_some_iff.mp h
  cases cs with
  | nil => contradiction
  | cons c r =>
    refine ⟨c, r, rfl, Bool.of_not_eq_false fun hc => ?_⟩
    simp [wholeDigits?, hc] at hwhole

theorem number?_withSign {negative : Bool} {cs : List Char} {p : Number × List Char}
    (h : unsigned? negative cs = some p) : number? (withSign negative cs) = some p := by
  cases negative with
  | true => exact h
  | false =>
    obtain ⟨c, r, rfl, hc⟩ := exists_digit_of_unsigned? h
    have hsign : c ≠ '-' := by
      rintro rfl
      contradiction
    simp only [withSign, Bool.false_eq_true, if_false]
    unfold number?
    split
    · rename_i heq
      exact absurd (List.cons.inj heq).1 hsign
    · exact h

theorem number?_numberChars {n : Number} (hrest : Ends rest) (hfinite : n.asRead.toFloat.isFinite) :
    number? (numberChars n ++ rest) = some (n.asRead, rest) := by
  have hsign (negative : Bool) (cs : List Char) :
      withSign negative cs ++ rest = withSign negative (cs ++ rest) := by
    cases negative <;> rfl
  cases n with
  | integer negative value =>
    rw [numberChars, hsign]
    exact number?_withSign (unsigned?_integer negative value hrest hfinite)
  | decimal d =>
    have htext : numberChars (.decimal d) =
        withSign d.negative (scientific window false d.digits d.exponent) := rfl
    rw [htext, hsign]
    exact number?_withSign (unsigned?_scientific d.negative d.digits d.exponent hrest hfinite)

theorem head_of_number? {cs : List Char} {p : Number × List Char} (h : number? cs = some p) :
    ∃ c r, cs = c :: r ∧ (c = '-' ∨ isDigit c = true) := by
  unfold number? at h
  split at h
  · exact ⟨_, _, rfl, .inl rfl⟩
  · obtain ⟨c, r, hcs, hc⟩ := exists_digit_of_unsigned? h
    exact ⟨c, r, hcs, .inr hc⟩

end

end SweepReport.Json
