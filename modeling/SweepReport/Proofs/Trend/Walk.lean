import Mathlib.Data.Nat.Find
import SweepReport.Trend.Curve

/-! Walks along an axis. The indices of a walk are counted as long as their abscissas lie below the
end, and no further than a limit. Where one of them is not, the count is the first such index, whatever
the limit is; where none is, there is no count. -/
namespace SweepReport
variable {α : Type} [Scalar α] {start stop step : α}

/-- The walk comes to the end, or past it, at this index and not before. -/
structure Arrives (start stop step : α) (n : Nat) : Prop where
  below : ∀ i < n, Scalar.lt (abscissa start step i) stop = true
  arrived : Scalar.lt (abscissa start step n) stop = false

theorem Arrives.unique {m n : Nat} (hm : Arrives start stop step m) (hn : Arrives start stop step n) :
    m = n := by
  refine Nat.le_antisymm (Nat.le_of_not_lt fun hlt => ?_) (Nat.le_of_not_lt fun hlt => ?_)
  · exact Bool.false_ne_true (hn.arrived.symm.trans (hm.below n hlt))
  · exact Bool.false_ne_true (hm.arrived.symm.trans (hn.below m hlt))

/-- The count is where the walk arrives, if that is within the limit. -/
theorem countFrom?_eq_some_iff {limit i n : Nat}
    (hbefore : ∀ j < i, Scalar.lt (abscissa start step j) stop = true) :
    countFrom? start stop step limit i = some n ↔
      i ≤ n ∧ n < i + limit ∧ Arrives start stop step n := by
  induction limit generalizing i with
  | zero =>
    rw [countFrom?]
    refine iff_of_false (Option.some_ne_none n ·.symm) ?_
    rintro ⟨hi, hn, -⟩
    omega
  | succ limit ih =>
    rw [countFrom?]
    split
    · rename_i hbelow
      have hnext : ∀ j < i + 1, Scalar.lt (abscissa start step j) stop = true := fun j hj => by
        cases Nat.lt_succ_iff_lt_or_eq.mp hj with
        | inl hlt => exact hbefore j hlt
        | inr heq => exact heq ▸ hbelow
      rw [ih hnext]
      constructor
      · rintro ⟨hi, hn, harrives⟩
        exact ⟨by omega, by omega, harrives⟩
      · rintro ⟨hi, hn, harrives⟩
        have hne : i ≠ n := by
          rintro rfl
          exact Bool.false_ne_true (harrives.arrived.symm.trans hbelow)
        exact ⟨by omega, by omega, harrives⟩
    · rename_i harrived
      have harrives : Arrives start stop step i := ⟨hbefore, Bool.eq_false_iff.mpr harrived⟩
      rw [Option.some.injEq]
      constructor
      · rintro rfl
        exact ⟨Nat.le_refl i, by omega, harrives⟩
      · rintro ⟨-, -, hn⟩
        exact harrives.unique hn

theorem countFrom?_zero_iff {limit n : Nat} :
    countFrom? start stop step limit 0 = some n ↔ n < limit ∧ Arrives start stop step n := by
  rw [countFrom?_eq_some_iff fun j hj => absurd hj (Nat.not_lt_zero j)]
  simp

theorem sampleCount?_eq_some_iff {n : Nat} :
    sampleCount? start stop step = some n ↔
      n < Scalar.reach start stop step ∧ Arrives start stop step n := countFrom?_zero_iff

/-- Some index that is not below the end is the first. -/
theorem exists_arrives_iff {limit : Nat} : (∃ n < limit, Arrives start stop step n) ↔
    ∃ i < limit, Scalar.lt (abscissa start step i) stop = false := by
  constructor
  · rintro ⟨n, hn, harrives⟩
    exact ⟨n, hn, harrives.arrived⟩
  · rintro ⟨i, hi, harrived⟩
    have hex : ∃ i, Scalar.lt (abscissa start step i) stop = false := ⟨i, harrived⟩
    refine ⟨Nat.find hex, Nat.lt_of_le_of_lt (Nat.find_min' hex harrived) hi,
      fun j hj => ?_, Nat.find_spec hex⟩
    exact Bool.not_eq_false _ ▸ Nat.find_min hex hj

/-- The samples of a walk: the trend at each place before the end. -/
def Trend.samples (p : Trend α) (start step : α) (count : Nat) : Curve α :=
  (List.range count).map fun i => (abscissa start step i, p.eval (abscissa start step i))

section
variable {step : α} (hstep : isStep step = true) (p : Trend α) {start stop : α}
include hstep

theorem sample?_of_isStep : p.sample? start stop step =
    (sampleCount? start stop step).map (p.samples start step) := if_pos hstep

theorem sample?_eq_some_iff {curve : Curve α} : p.sample? start stop step = some curve ↔
    ∃ n < Scalar.reach start stop step, Arrives start stop step n ∧ curve = p.samples start step n := by
  rw [sample?_of_isStep hstep, Option.map_eq_some_iff]
  constructor
  · rintro ⟨n, hn, rfl⟩
    obtain ⟨hlt, harrives⟩ := sampleCount?_eq_some_iff.mp hn
    exact ⟨n, hlt, harrives, rfl⟩
  · rintro ⟨n, hlt, harrives, rfl⟩
    exact ⟨n, sampleCount?_eq_some_iff.mpr ⟨hlt, harrives⟩, rfl⟩

end

theorem sample?_of_not_isStep {step : α} (hstep : isStep step = false) (p : Trend α) (start stop : α) :
    p.sample? start stop step = some [] := by
  rw [Trend.sample?, hstep]
  rfl

end SweepReport
