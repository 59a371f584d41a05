import Mathlib.Order.Bounds.Basic
import SweepReport.Proofs.Double.Bits
import SweepReport.Proofs.Double.Order

/-! The greatest and the least of many doubles. What is no number is left out, and of the numbers neither
the order nor how often they come matters: a fold from zero depends on which values there are. -/
namespace SweepReport.Double
open Float.Model (UnpackedFloat)
open Float.Model.UnpackedFloat

theorem finite_of_rankOf_eq {s t : Sign} {m n : Nat} {e f : Int} {hm : 0 < m} {hn : 0 < n}
    (hc : Canonical m e) (hd : Canonical n f)
    (h : rankOf (.finite s m e hm) = rankOf (.finite t n f hn)) : s = t ∧ m = n ∧ e = f := by
  have hpos := (rankOf_finite_bounds hm hc).1
  have hpos' := (rankOf_finite_bounds hn hd).1
  have hbits := hc.bits
  have hbits' := hd.bits
  cases s with
  | negative =>
    cases t with
    | negative =>
      simp only [rankOf, Sign.apply] at h
      exact ⟨rfl, by omega, by omega⟩
    | positive =>
      simp only [rankOf, Sign.apply] at h
      omega
  | positive =>
    cases t with
    | negative =>
      simp only [rankOf, Sign.apply] at h
      omega
    | positive =>
      simp only [rankOf, Sign.apply] at h
      exact ⟨rfl, by omega, by omega⟩

/-- The place of a number that is not zero says which number it is. -/
theorem eq_of_rank_eq {x y : Float} (h : rank x = rank y) (hne : rank x ≠ 0) : x = y := by
  apply parts_inj
  rw [rank] at hne
  rw [rank, rank] at h
  cases hx : parts x with
  | notANumber => simp [hx, rankOf] at hne
  | zero s => simp [hx, rankOf] at hne
  | infinity s =>
    rw [hx] at h
    cases hy : parts y with
    | notANumber => cases s <;> simp [hy, rankOf, Sign.apply] at h
    | zero t => cases s <;> simp [hy, rankOf, Sign.apply] at h
    | infinity t => cases s <;> cases t <;> simp_all [rankOf, Sign.apply]
    | finite t n f hn =>
      obtain ⟨hpos, hlt⟩ := rankOf_finite_bounds hn (canonical_parts hy)
      cases s <;> cases t <;> simp only [hy, rankOf, Sign.apply] at h <;> omega
  | finite s m e hm =>
    obtain ⟨hpos, hlt⟩ := rankOf_finite_bounds hm (canonical_parts hx)
    rw [hx] at h
    cases hy : parts y with
    | notANumber => cases s <;> simp only [hy, rankOf, Sign.apply] at h <;> omega
    | zero t => cases s <;> simp only [hy, rankOf, Sign.apply] at h <;> omega
    | infinity t => cases s <;> cases t <;> simp only [hy, rankOf, Sign.apply] at h <;> omega
    | finite t n f hn =>
      rw [hy] at h
      obtain ⟨rfl, rfl, rfl⟩ := finite_of_rankOf_eq (canonical_parts hx) (canonical_parts hy) h
      rfl

theorem rank_zero : rank Scalar.zero = 0 := rfl

/-- What a fold picks from zero on is zero itself or no zero at all, so its place says which it is. -/
theorem eq_of_rank_eq_of_zero {x y : Float} (h : rank x = rank y) (hx : x = Scalar.zero ∨ rank x ≠ 0)
    (hy : y = Scalar.zero ∨ rank y ≠ 0) : x = y := by
  cases hx with
  | inl hx =>
    subst hx
    exact (hy.resolve_right fun hne => hne (by rw [← h, rank_zero])).symm
  | inr hx => exact eq_of_rank_eq h hx

/-- The choice between two doubles, of which the first is a number: the second is picked where it lies
beyond. -/
structure Picks (pick : Float → Float → Float) (beyond : Float → Float → Prop) : Prop where
  cases : ∀ {x : Float}, x.isNaN = false → ∀ y, pick x y = x ∨ pick x y = y ∧ beyond x y
  number : ∀ {x y : Float}, beyond x y → y.isNaN = false
  trans : ∀ {x y z : Float}, beyond x y → beyond y z → beyond x z

theorem picks_max : Picks Scalar.max (· < ·) where
  cases := by
    intro x hx y
    rw [max_of_number hx]
    split
    · exact .inr ⟨rfl, ‹_›⟩
    · exact .inl rfl
  number := fun h => (lt_iff.mp h).2.1
  trans := fun hxy hyz => lt_of_lt_of_le hxy (le_of_lt hyz)

theorem picks_min : Picks Scalar.min (fun x y => y < x) where
  cases := by
    intro x hx y
    rw [min_of_number hx]
    split
    · exact .inr ⟨rfl, ‹_›⟩
    · exact .inl rfl
  number := fun h => (lt_iff.mp h).1
  trans := fun hxy hyz => picks_max.trans hyz hxy

theorem Picks.foldl_cases {pick : Float → Float → Float} {beyond : Float → Float → Prop}
    (h : Picks pick beyond) {x : Float} (hx : x.isNaN = false) (ys : List Float) :
    ys.foldl pick x = x ∨ ys.foldl pick x ∈ ys ∧ beyond x (ys.foldl pick x) := by
  induction ys generalizing x with
  | nil => exact .inl rfl
  | cons y ys ih =>
    rw [List.foldl_cons]
    cases h.cases hx y with
    | inl hkept =>
      rw [hkept]
      exact (ih hx).imp_right fun hlater => ⟨List.mem_cons_of_mem y hlater.1, hlater.2⟩
    | inr hpicked =>
      obtain ⟨hpick, hbeyond⟩ := hpicked
      rw [hpick]
      cases ih (h.number hbeyond) with
      | inl hlast => exact .inr (by rw [hlast]; exact ⟨List.mem_cons_self, hbeyond⟩)
      | inr hlater => exact .inr ⟨List.mem_cons_of_mem y hlater.1, h.trans hbeyond hlater.2⟩

def numbersWithZero (ys : List Float) : Set Float :=
  {y | y.isNaN = false ∧ (y = Scalar.zero ∨ y ∈ ys)}

section
variable (ys : List Float)

theorem isGreatest_foldl_max : IsGreatest (numbersWithZero ys) (ys.foldl Scalar.max Scalar.zero) := by
  obtain ⟨hnumber, hzero, hall⟩ := foldl_max_spec isNaN_zero ys
  refine ⟨⟨hnumber, (picks_max.foldl_cases isNaN_zero ys).imp_right And.left⟩, fun y hy => ?_⟩
  obtain ⟨hy, rfl | hmem⟩ := hy
  · exact hzero
  · exact hall y hmem hy

theorem isLeast_foldl_min : IsLeast (numbersWithZero ys) (ys.foldl Scalar.min Scalar.zero) := by
  obtain ⟨hnumber, hzero, hall, hmem⟩ := foldl_min_spec isNaN_zero ys
  refine ⟨⟨hnumber, hmem⟩, fun y hy => ?_⟩
  obtain ⟨hy, rfl | hmem⟩ := hy
  · exact hzero
  · exact hall y hmem hy

theorem foldl_max_zero_or :
    ys.foldl Scalar.max Scalar.zero = Scalar.zero ∨ rank (ys.foldl Scalar.max Scalar.zero) ≠ 0 := by
  refine (picks_max.foldl_cases isNaN_zero ys).imp_right fun h => ?_
  have habove := (lt_iff.mp h.2).2.2
  rw [rank_zero] at habove
  exact Int.ne_of_gt habove

theorem foldl_min_zero_or :
    ys.foldl Scalar.min Scalar.zero = Scalar.zero ∨ rank (ys.foldl Scalar.min Scalar.zero) ≠ 0 := by
  refine (picks_min.foldl_cases isNaN_zero ys).imp_right fun h => ?_
  have hbelow := (lt_iff.mp h.2).2.2
  rw [rank_zero] at hbelow
  exact Int.ne_of_lt hbelow

end

section
variable {xs ys : List Float} (h : ∀ y, y ∈ xs ↔ y ∈ ys)
include h

theorem numbersWithZero_congr : numbersWithZero xs = numbersWithZero ys := by
  ext y
  simp [numbersWithZero, h y]

theorem foldl_max_congr : xs.foldl Scalar.max Scalar.zero = ys.foldl Scalar.max Scalar.zero := by
  obtain ⟨hmem, hbound⟩ := isGreatest_foldl_max xs
  obtain ⟨hmem', hbound'⟩ := isGreatest_foldl_max ys
  rw [← numbersWithZero_congr h] at hmem' hbound'
  have hrank := Int.le_antisymm (le_iff.mp (hbound' hmem)).2.2 (le_iff.mp (hbound hmem')).2.2
  exact eq_of_rank_eq_of_zero hrank (foldl_max_zero_or xs) (foldl_max_zero_or ys)

theorem foldl_min_congr : xs.foldl Scalar.min Scalar.zero = ys.foldl Scalar.min Scalar.zero := by
  obtain ⟨hmem, hbound⟩ := isLeast_foldl_min xs
  obtain ⟨hmem', hbound'⟩ := isLeast_foldl_min ys
  rw [← numbersWithZero_congr h] at hmem' hbound'
  have hrank := Int.le_antisymm (le_iff.mp (hbound hmem')).2.2 (le_iff.mp (hbound' hmem)).2.2
  exact eq_of_rank_eq_of_zero hrank (foldl_min_zero_or xs) (foldl_min_zero_or ys)

end

end SweepReport.Double
