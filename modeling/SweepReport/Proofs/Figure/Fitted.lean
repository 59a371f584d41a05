import Mathlib.Data.List.Forall2
import SweepReport.Sweep

/-! Sweeps with their trend lines. A list of sweeps is fitted as a whole or not at all: if the sampling of
one trend line never ends, none is drawn. -/
namespace SweepReport

theorem mapM_eq_some_iff {β γ : Type} {f : β → Option γ} {xs : List β} {ys : List γ} :
    xs.mapM f = some ys ↔ List.Forall₂ (fun x y => f x = some y) xs ys := by
  induction xs generalizing ys with
  | nil =>
    rw [List.mapM_nil, List.forall₂_nil_left_iff]
    exact ⟨fun h => (Option.some.inj h).symm, fun h => h ▸ rfl⟩
  | cons x xs ih =>
    simp only [List.mapM_cons, List.forall₂_cons_left_iff, Option.bind_eq_bind, Option.bind_eq_some_iff,
      Option.pure_def, Option.some.injEq, ih]
    constructor
    · rintro ⟨y, hy, ys, hys, rfl⟩
      exact ⟨y, ys, hy, hys, rfl⟩
    · rintro ⟨y, ys, hy, hys, rfl⟩
      exact ⟨y, hy, ys, hys, rfl⟩

theorem exists_mapM_iff {β γ : Type} {f : β → Option γ} {xs : List β} :
    (∃ ys, xs.mapM f = some ys) ↔ ∀ x ∈ xs, ∃ y, f x = some y := by
  simp only [mapM_eq_some_iff]
  constructor
  · rintro ⟨ys, h⟩ x hx
    induction h with
    | nil => simp at hx
    | cons hy _ ih =>
      cases List.mem_cons.mp hx with
      | inl heq => exact ⟨_, heq ▸ hy⟩
      | inr hmem => exact ih hmem
  · intro h
    induction xs with
    | nil => exact ⟨[], .nil⟩
    | cons x xs ih =>
      obtain ⟨⟨y, hy⟩, hxs⟩ := List.forall_mem_cons.mp h
      obtain ⟨ys, hys⟩ := ih hxs
      exact ⟨y :: ys, .cons hy hys⟩

variable {α : Type} [Scalar α] {s : Sweep α} {f : FittedSweep α} {degree : Nat} {step : α}

theorem sweep_of_fitted? (h : s.fitted? degree step = some f) : f.sweep = s := by
  obtain ⟨curve, -, rfl⟩ := Option.map_eq_some_iff.mp h
  rfl

section
variable {ss : List (Sweep α)} {fs : List (FittedSweep α)} (h : fitSweeps? ss degree step = some fs)
include h

theorem map_sweep_of_fitSweeps? : fs.map FittedSweep.sweep = ss := by
  have hall := mapM_eq_some_iff.mp h
  clear h
  induction hall with
  | nil => rfl
  | cons hf _ ih => rw [List.map_cons, ih, sweep_of_fitted? hf]

theorem fitted?_of_mem (hf : f ∈ fs) : f.sweep ∈ ss ∧ f.sweep.fitted? degree step = some f := by
  have hall := mapM_eq_some_iff.mp h
  clear h
  induction hall with
  | nil => simp at hf
  | cons hfirst _ ih =>
    cases List.mem_cons.mp hf with
    | inl heq =>
      rw [← heq] at hfirst
      rw [sweep_of_fitted? hfirst]
      exact ⟨List.mem_cons_self, hfirst⟩
    | inr hmem => exact (ih hmem).imp_left (List.mem_cons_of_mem _)

/-- Sweeps that are left out take nothing but their own trend lines with them. -/
theorem fitSweeps?_filter (keep : Sweep α → Bool) :
    fitSweeps? (ss.filter keep) degree step = some (fs.filter fun f => keep f.sweep) := by
  have hall := mapM_eq_some_iff.mp h
  clear h
  refine mapM_eq_some_iff.mpr ?_
  induction hall with
  | nil => exact .nil
  | @cons s f _ _ hf _ ih =>
    rw [List.filter_cons, List.filter_cons, sweep_of_fitted? hf]
    cases keep s with
    | false => exact ih
    | true => exact .cons hf ih

end

end SweepReport
