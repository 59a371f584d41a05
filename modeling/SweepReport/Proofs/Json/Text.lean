import SweepReport.Json.Reader
import SweepReport.Json.Writer

/-! Text that was written in quotes is read as the same text: each character, escaped or not, is read
in one step. -/
namespace SweepReport.Json

theorem hexCode?_controlEscape {n : Nat} (hn : n < 0x20) (r : List Char) :
    hexCode? ('0' :: '0' :: Nat.digitChar (n / 16) :: Nat.digitChar (n % 16) :: r) =
      some (n, r) := by
  have hzero : Numeral.digitValue? 16 '0' = some 0 := by decide
  have hdigits : ∀ d : Fin 16, Numeral.digitValue? 16 (Nat.digitChar d) = some d.val := by decide
  have hhigh := hdigits ⟨n / 16, by omega⟩
  have hlow := hdigits ⟨n % 16, by omega⟩
  simp only [hexCode?, hzero, hhigh, hlow, Option.some.injEq, Prod.mk.injEq, and_true]
  omega

theorem escape?_controlEscape {c : Char} (hc : c.toNat < 0x20) (r : List Char) :
    controlEscape c.toNat ++ r = '\\' :: ('u' :: '0' :: '0' ::
        Nat.digitChar (c.toNat / 16) :: Nat.digitChar (c.toNat % 16) :: r) ∧
      escape? ('u' :: '0' :: '0' ::
        Nat.digitChar (c.toNat / 16) :: Nat.digitChar (c.toNat % 16) :: r) = some (c, r) := by
  refine ⟨rfl, ?_⟩
  simp only [escape?, codeEscape?, hexCode?_controlEscape hc]
  rw [if_neg (by omega), if_neg (by omega), Char.ofNat_toNat]

/-- One step reads what was written for one character. -/
theorem stringRest?_escapeChar (c : Char) (fuel : Nat) (done r : List Char) :
    stringRest? (fuel + 1) done (escapeChar c ++ r) = stringRest? fuel (c :: done) r := by
  unfold escapeChar
  split
  case h_8 =>
    rename_i hquote hslash _ _ _ _ _
    split
    · rename_i hc
      obtain ⟨htext, hread⟩ := escape?_controlEscape hc r
      rw [htext]
      simp [stringRest?, hread]
    · rename_i hc
      simp only [List.cons_append, List.nil_append, stringRest?, if_neg hquote, if_neg hslash,
        if_neg hc]
  all_goals rfl

theorem stringRest?_flatMap (cs : List Char) {fuel : Nat} (hfuel : cs.length < fuel)
    (done rest : List Char) :
    stringRest? fuel done (cs.flatMap escapeChar ++ '"' :: rest) =
      some (String.ofList (done.reverse ++ cs), rest) := by
  obtain ⟨fuel, rfl⟩ : ∃ n, fuel = n + 1 := Nat.exists_eq_succ_of_ne_zero (by omega)
  induction cs generalizing fuel done with
  | nil => simp [stringRest?]
  | cons c cs ih =>
    rw [List.length_cons] at hfuel
    obtain ⟨fuel, rfl⟩ : ∃ n, fuel = n + 1 := Nat.exists_eq_succ_of_ne_zero (by omega)
    rw [List.flatMap_cons, List.append_assoc, stringRest?_escapeChar, ih (c :: done) fuel (by omega)]
    simp

theorem one_le_length_escapeChar (c : Char) : 1 ≤ (escapeChar c).length := by
  unfold escapeChar
  split
  case h_8 => split <;> simp [controlEscape]
  all_goals decide

theorem length_le_flatMap (cs : List Char) : cs.length ≤ (cs.flatMap escapeChar).length := by
  induction cs with
  | nil => simp
  | cons c cs ih =>
    have := one_le_length_escapeChar c
    rw [List.flatMap_cons, List.length_append, List.length_cons]
    omega

theorem string?_escaped (s : String) (rest : List Char) :
    string? (s.toList.flatMap escapeChar ++ '"' :: rest) = some (s, rest) := by
  have hfuel : s.toList.length < (s.toList.flatMap escapeChar ++ '"' :: rest).length + 1 := by
    have := length_le_flatMap s.toList
    rw [List.length_append]
    omega
  rw [string?, stringRest?_flatMap s.toList hfuel, List.reverse_nil, List.nil_append,
    String.ofList_toList]

end SweepReport.Json
