import SweepReport.Proofs.Double.Arithmetic
import SweepReport.Proofs.Double.Order

/-! Doubles that are not finite. What is no number stays none under all arithmetic, while the larger
of it and a number is the number; and what is infinite comes out of a sum, a product or a quotient
as something that is not finite. -/
namespace SweepReport.Double
open Float.Model (UnpackedFloat)
open Float.Model.UnpackedFloat

theorem sub_eq (a b : Float) :
    a - b = ofParts (UnpackedFloat.sub .binary64 (parts a) (parts b)) := rfl

theorem abs_eq (a : Float) : a.abs = ofParts (parts a).abs := rfl

theorem isNaN_iff {x : Float} : x.isNaN ↔ parts x = .notANumber := by
  rw [isNaN_eq]
  cases parts x <;> simp [UnpackedFloat.isNaN]

theorem infinite_iff {x : Float} :
    (¬ x.isFinite ∧ x.isNaN = false) ↔ ∃ s, parts x = .infinity s := by
  rw [isFinite_eq, isNaN_eq]
  cases parts x <;> simp [UnpackedFloat.isFinite, UnpackedFloat.isNaN]

section
variable {a b : Float}

/-- An operation that no operand which is no number gets through. -/
theorem isNaN_ofParts {op : UnpackedFloat → UnpackedFloat → UnpackedFloat}
    (hleft : ∀ v, op .notANumber v = .notANumber) (hright : ∀ u, op u .notANumber = .notANumber)
    (h : a.isNaN ∨ b.isNaN) : (ofParts (op (parts a) (parts b))).isNaN := by
  simp only [isNaN_iff] at h ⊢
  rcases h with h | h
  · rw [h, hleft, parts_ofParts_notANumber]
  · rw [h, hright, parts_ofParts_notANumber]

theorem isNaN_add (h : a.isNaN ∨ b.isNaN) : (a + b).isNaN :=
  isNaN_ofParts (fun v => by cases v <;> rfl) (fun u => by cases u <;> rfl) h

theorem isNaN_sub (h : a.isNaN ∨ b.isNaN) : (a - b).isNaN :=
  isNaN_ofParts (fun v => by cases v <;> rfl) (fun u => by cases u <;> rfl) h

theorem isNaN_mul (h : a.isNaN ∨ b.isNaN) : (a * b).isNaN :=
  isNaN_ofParts (fun v => by cases v <;> rfl) (fun u => by cases u <;> rfl) h

theorem isNaN_div (h : a.isNaN ∨ b.isNaN) : (a / b).isNaN :=
  isNaN_ofParts (fun v => by cases v <;> rfl) (fun u => by cases u <;> rfl) h

theorem isNaN_abs (h : a.isNaN) : a.abs.isNaN := by
  rw [isNaN_iff] at h ⊢
  rw [abs_eq, h]
  rfl

theorem isFinite_of_sub (h : (a - b).isFinite) : a.isFinite ∧ b.isFinite := by
  rw [sub_eq] at h
  rw [isFinite_eq a, isFinite_eq b]
  cases ha : parts a with
  | notANumber => simp [ha, UnpackedFloat.sub, isFinite_eq, UnpackedFloat.isFinite] at h
  | infinity s =>
    cases hb : parts b with
    | infinity t => cases s <;> cases t <;> simp [ha, hb] at h <;> contradiction
    | _ => simp [ha, hb, UnpackedFloat.sub, isFinite_eq, UnpackedFloat.isFinite] at h
  | _ =>
    cases hb : parts b with
    | infinity t => simp [ha, hb, UnpackedFloat.sub, isFinite_eq, UnpackedFloat.isFinite] at h
    | notANumber => simp [ha, hb, UnpackedFloat.sub, isFinite_eq, UnpackedFloat.isFinite] at h
    | _ => exact ⟨rfl, rfl⟩

theorem isFinite_of_mul (h : (a * b).isFinite) : a.isFinite ∧ b.isFinite := by
  rw [mul_eq] at h
  rw [isFinite_eq, isFinite_eq b]
  cases ha : parts a <;> cases hb : parts b <;>
    simp_all [UnpackedFloat.mul, isFinite_eq, UnpackedFloat.isFinite]

theorem infinite_div {s : Sign} (ha : parts a = .infinity s) (hb : b.isFinite) :
    ∃ t, parts (a / b) = .infinity t := by
  rw [isFinite_eq] at hb
  rw [div_eq, ha]
  cases h : parts b with
  | finite t m e hm => exact ⟨s / t, parts_ofParts_infinity _⟩
  | zero t => exact ⟨s / t, parts_ofParts_infinity _⟩
  | infinity t => simp [h, UnpackedFloat.isFinite] at hb
  | notANumber => simp [h, UnpackedFloat.isFinite] at hb

theorem parts_abs_infinity {s : Sign} (ha : parts a = .infinity s) :
    parts a.abs = .infinity .positive := by
  rw [abs_eq, ha]
  exact parts_ofParts_infinity _

theorem infinity_of_le (ha : parts a = .infinity .positive) (h : a ≤ b) :
    parts b = .infinity .positive := by
  obtain ⟨-, hb, hrank⟩ := le_iff.mp h
  rw [rank, ha, rank] at hrank
  rw [isNaN_eq] at hb
  cases hparts : parts b with
  | notANumber => simp [hparts, UnpackedFloat.isNaN] at hb
  | zero s => simp [hparts, rankOf, Sign.apply] at hrank
  | infinity s =>
    cases s
    · simp [hparts, rankOf, Sign.apply] at hrank
    · rfl
  | finite s m e hm =>
    obtain ⟨hpos, hlt⟩ := rankOf_finite_bounds hm (canonical_parts hparts)
    rw [hparts] at hrank
    cases s <;> simp only [rankOf, Sign.apply] at hrank <;> omega

/-- Beside a number, what is none goes unseen. -/
theorem max_of_isNaN (ha : a.isNaN = false) (hb : b.isNaN) : Scalar.max a b = a := by
  have hmax : Scalar.max a b = if a < b then b else a := by
    change (if a.isNaN then b else _) = _
    rw [ha]
    rfl
  rw [hmax, if_neg]
  intro h
  rw [(lt_iff.mp h).2.1] at hb
  exact Bool.false_ne_true hb

theorem max_infinity (ha : a.isNaN = false)
    (h : parts a = .infinity .positive ∨ parts b = .infinity .positive) :
    parts (Scalar.max a b) = .infinity .positive := by
  obtain ⟨-, hleft, hright⟩ := max_spec ha b
  rcases h with h | h
  · exact infinity_of_le h hleft
  · exact infinity_of_le h (hright (by rw [isNaN_eq, h]; rfl))

end

theorem isNaN_foldl_add {x : Float} (ys : List Float) (h : x.isNaN) :
    (ys.foldl (· + ·) x).isNaN := by
  induction ys generalizing x with
  | nil => exact h
  | cons y ys ih => exact ih (isNaN_add (.inl h))

theorem isNaN_sum {y : Float} {ys : List Float} (hy : y ∈ ys) (h : y.isNaN) :
    (Scalar.sum ys).isNaN := by
  obtain ⟨before, after, rfl⟩ := List.append_of_mem hy
  rw [Scalar.sum, List.foldl_append]
  exact isNaN_foldl_add after (isNaN_add (.inr h))

theorem isFinite_of_sum {ys : List Float} (h : (Scalar.sum ys).isFinite) : ∀ y ∈ ys, y.isFinite :=
  (isFinite_foldl_of h).2

end SweepReport.Double
