import SweepReport.Proofs.Double.Code
import SweepReport.Proofs.Json.RoundTrip
import SweepReport.Proofs.Numeral.Shortest

/-! JSON numbers that are doubles. A finite double is written by its shortest digits and read as the
same double, and every word is in the range of doubles. -/
namespace SweepReport.Json
open Numeral

@[simp] theorem asRead_arrayOf (vs : List Json) : (arrayOf vs).asRead = arrayOf (vs.map asRead) := by
  rw [arrayOf, asRead, itemsAsRead_eq_map, arrayOf]

@[simp] theorem asRead_objectOf (ms : List (String × Json)) :
    (objectOf ms).asRead = objectOf (ms.map fun m => (m.1, m.2.asRead)) := by
  rw [objectOf, asRead, membersAsRead_eq_map, objectOf]

/-- A finite double is a number, which stands for it before it is written and after. -/
theorem ofFloat_eq_number {x : Float} (hx : x.isFinite) :
    ∃ n, ofFloat x = number n ∧ n.toFloat = x ∧ n.asRead.toFloat = x := by
  have hfloat := toFloat_shortest .even hx
  refine ⟨_, if_pos hx, hfloat, ?_⟩
  rw [toFloat_asRead]
  exact hfloat

theorem complete_ofFloat {x : Float} (hx : x.isFinite) : (ofFloat x).Complete := by
  obtain ⟨n, hn, hfloat, -⟩ := ofFloat_eq_number hx
  rw [hn]
  exact .number (by rwa [hfloat])

theorem isFinite_word (n : UInt64) : (Number.integer false n.toNat).toFloat.isFinite := by
  have hword : n.toNat < 2 ^ 64 := UInt64.toNat_lt n
  have hnearest : nearestCode n.toNat 1 < infinityCode := by
    have hmono := nearestCode_mono_left Nat.one_pos (Nat.le_of_lt hword)
    exact Nat.lt_of_le_of_lt hmono (by decide +kernel)
  have hlength : (decimalText n.toNat).length ≤ 20 :=
    (Nat.length_toDigits_le_iff (by decide) (by decide)).mpr (Nat.lt_trans hword (by decide))
  have hcode : Decimal.code ⟨false, n.toNat, 0⟩ < infinityCode := by
    rw [Decimal.code_eq]
    dsimp only
    split
    · decide
    · rw [if_neg (by rw [exponentReach]; omega)]
      simpa using hnearest
  exact Double.isFinite_ofCode hcode

end SweepReport.Json
