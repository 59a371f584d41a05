import SweepReport.Proofs.Trend.Projection

/-! The passes of a fit over any vectors, orthogonal or not, as steps of a machine. In exact
arithmetic each step keeps the residual at what the weights leave of the samples, and no step makes
it greater. A pass changes nothing just where the residual is orthogonal to every vector, which is
where no other weights leave less. -/
namespace SweepReport
open Scalar (zero)

/-- Where the passes stand: the vectors that this pass has projected on, and those to come. -/
structure PassState (α : Type) where
  before : List (Weighted α)
  after : List (Weighted α)
  pass : Pass α

theorem vector_projected {α : Type} [Scalar α] (before after : List (Weighted α)) (w : Weighted α)
    (p : Pass α) : (before ++ (project p w).1 :: after).map Weighted.vector =
      (before ++ w :: after).map Weighted.vector := by
  rw [List.map_append, List.map_append]
  rfl

namespace PassState
variable {α : Type}

def weighted (s : PassState α) : List (Weighted α) := s.before ++ s.after

variable [Scalar α]

/-- A projection on the next vector, or the turn to the next pass after the last. -/
inductive Step : PassState α → PassState α → Prop
  | project (before : List (Weighted α)) (w : Weighted α) (after : List (Weighted α)) (p : Pass α) :
    Step ⟨before, w :: after, p⟩ ⟨before ++ [(project p w).1], after, (project p w).2⟩
  | turn (ws : List (Weighted α)) (p : Pass α) : Step ⟨ws, [], p⟩ ⟨[], ws, ⟨p.residual, zero⟩⟩

def Steps : PassState α → PassState α → Prop := Relation.ReflTransGen Step

def start (vs : List (BasisVector α)) (ys : List α) : PassState α :=
  ⟨[], unweighted vs, ⟨ys, zero⟩⟩

/-- A pass is a step for each vector. -/
theorem steps_passOver (before ws : List (Weighted α)) (p : Pass α) :
    Steps ⟨before, ws, p⟩ ⟨before ++ (passOver p ws).1, [], (passOver p ws).2⟩ := by
  induction ws generalizing before p with
  | nil =>
    rw [passOver, List.append_nil]
    exact .refl
  | cons w ws ih =>
    have hrest := ih (before ++ [(project p w).1]) (project p w).2
    rw [List.append_assoc] at hrest
    exact .head (.project before w ws p) hrest

/-- The passes of a fit make no other steps. -/
theorem exists_steps_refine {tolerance : α} {passes done : Nat} {ws ws' : List (Weighted α)}
    {residual : List α} {count : Option Nat}
    (h : refine tolerance passes done ws residual = some (ws', count)) :
    ∃ s, Steps ⟨[], ws, ⟨residual, zero⟩⟩ s ∧ s.weighted = ws' := by
  induction passes generalizing done ws residual with
  | zero =>
    obtain ⟨rfl, -⟩ := Prod.mk.inj (Option.some.inj h)
    exact ⟨_, .refl, rfl⟩
  | succ passes ih =>
    have hpass := steps_passOver [] ws ⟨residual, zero⟩
    rw [List.nil_append] at hpass
    rw [refine] at h
    dsimp only at h
    split at h
    · contradiction
    split at h
    · obtain ⟨rfl, -⟩ := Prod.mk.inj (Option.some.inj h)
      exact ⟨_, hpass, List.append_nil _⟩
    · obtain ⟨s, hsteps, hs⟩ := ih h
      exact ⟨s, (hpass.tail (.turn _ _)).trans hsteps, hs⟩

end PassState

section
variable {α : Type} [Scalar α]

def amounts : Pass α → List (Weighted α) → List α
  | _, [] => []
  | p, w :: ws => component p.residual w.vector :: amounts (project p w).2 ws

end

section
variable {n : Nat} {xs ys residual : List ℚ}

theorem pairing_eq_sum (hxs : xs.length = n) (hys : ys.length = n) :
    pairing xs ys = ∑ i ∈ Finset.range n, xs.getD i 0 * ys.getD i 0 := by
  induction xs generalizing ys n with
  | nil =>
    subst hxs
    simp
  | cons x xs ih =>
    subst hxs
    obtain ⟨y, ys, rfl⟩ := List.exists_cons_of_length_eq_add_one hys
    rw [pairing_cons, ih rfl (Nat.succ.inj hys), List.length_cons, Finset.sum_range_succ']
    simp [add_comm]

theorem fitted_append (ws ws' : List (Weighted ℚ)) (i : Nat) :
    fitted (ws ++ ws') i = fitted ws i + fitted ws' i := by
  simp [fitted]

/-- Against what weights give, a residual sees each vector by its weight. -/
theorem sum_mul_fitted (hresidual : residual.length = n) {ws : List (Weighted ℚ)}
    (hws : Sized n (ws.map Weighted.vector)) :
    ∑ i ∈ Finset.range n, residual.getD i 0 * fitted ws i =
      (ws.map fun w => w.weight * pairing residual w.vector.values).sum := by
  induction ws with
  | nil => simp
  | cons w ws ih =>
    obtain ⟨hw, hrest⟩ := List.forall_mem_cons.mp hws
    rw [List.map_cons, List.sum_cons, ← ih hrest, pairing_eq_sum hresidual hw, Finset.mul_sum,
      ← Finset.sum_add_distrib]
    refine Finset.sum_congr rfl fun i _ => ?_
    rw [fitted_cons]
    ring

end

def Normed (vs : List (BasisVector ℚ)) : Prop :=
  ∀ v ∈ vs, v.norm = pairing v.values v.values ∧ 0 < v.norm

/-- The residual is what the weights leave of the samples. -/
structure Leaves (ws : List (Weighted ℚ)) (ys residual : List ℚ) : Prop where
  length : residual.length = ys.length
  eq : ∀ i, residual.getD i 0 = ys.getD i 0 - fitted ws i

def squaredMisfit (ys : List ℚ) (ws : List (Weighted ℚ)) : ℚ :=
  ∑ i ∈ Finset.range ys.length, (ys.getD i 0 - fitted ws i) ^ 2

section
variable {ys residual : List ℚ} {ws ws' : List (Weighted ℚ)}

theorem Leaves.squaredMisfit_eq (h : Leaves ws ys residual) :
    squaredMisfit ys ws = pairing residual residual := by
  rw [pairing_eq_sum h.length h.length]
  refine Finset.sum_congr rfl fun i _ => ?_
  rw [h.eq, sq]

/-- Where the residual is orthogonal to the vectors, other weights leave as much and the square of
what sets them apart. -/
theorem Leaves.squaredMisfit_other (h : Leaves ws ys residual)
    (hws : Sized ys.length (ws.map Weighted.vector))
    (horthogonal : ∀ v ∈ ws.map Weighted.vector, pairing residual v.values = 0)
    (hvectors : ws'.map Weighted.vector = ws.map Weighted.vector) :
    squaredMisfit ys ws' =
      squaredMisfit ys ws + ∑ i ∈ Finset.range ys.length, (fitted ws i - fitted ws' i) ^ 2 := by
  have hzero {others : List (Weighted ℚ)}
      (hothers : others.map Weighted.vector = ws.map Weighted.vector) :
      ∑ i ∈ Finset.range ys.length, residual.getD i 0 * fitted others i = 0 := by
    rw [sum_mul_fitted h.length (hothers ▸ hws)]
    refine List.sum_eq_zero fun x hx => ?_
    obtain ⟨w, hw, rfl⟩ := List.mem_map.mp hx
    rw [horthogonal w.vector (hothers ▸ List.mem_map_of_mem hw), mul_zero]
  have hcross : ∑ i ∈ Finset.range ys.length,
      2 * (residual.getD i 0 * fitted ws i - residual.getD i 0 * fitted ws' i) = 0 := by
    rw [← Finset.mul_sum, Finset.sum_sub_distrib, hzero rfl, hzero hvectors, sub_zero, mul_zero]
  calc
    squaredMisfit ys ws' = ∑ i ∈ Finset.range ys.length, ((ys.getD i 0 - fitted ws i) ^ 2 +
          (fitted ws i - fitted ws' i) ^ 2 +
          2 * (residual.getD i 0 * fitted ws i - residual.getD i 0 * fitted ws' i)) := by
        refine Finset.sum_congr rfl fun i _ => ?_
        rw [h.eq]
        ring
    _ = squaredMisfit ys ws + ∑ i ∈ Finset.range ys.length, (fitted ws i - fitted ws' i) ^ 2 := by
        rw [Finset.sum_add_distrib, Finset.sum_add_distrib, hcross, add_zero, squaredMisfit]

variable [Precision] {before after : List (Weighted ℚ)} {w : Weighted ℚ} {p : Pass ℚ}

/-- A projection takes from the residual what it adds to the weight. -/
theorem Leaves.projected (h : Leaves (before ++ w :: after) ys p.residual)
    (hw : w.vector.values.length = p.residual.length) :
    Leaves (before ++ (project p w).1 :: after) ys (project p w).2.residual := by
  refine ⟨(length_takeOff hw).trans h.length, fun i => ?_⟩
  have hstep := project_conserves hw i
  have hresidual := h.eq i
  have hvector : (project p w).1.vector = w.vector := rfl
  rw [fitted_append, fitted_cons] at hresidual ⊢
  rw [hvector]
  linarith

/-- A projection lowers the sum of squares by the part along the vector. -/
theorem pairing_project (hw : w.vector.values.length = p.residual.length)
    (hnorm : w.vector.norm = pairing w.vector.values w.vector.values) (hpos : 0 < w.vector.norm) :
    pairing (project p w).2.residual (project p w).2.residual =
      pairing p.residual p.residual - pairing p.residual w.vector.values ^ 2 / w.vector.norm := by
  have hleft (others : List ℚ) : pairing (project p w).2.residual others =
      pairing p.residual others -
        pairing p.residual w.vector.values / w.vector.norm * pairing w.vector.values others := by
    rw [← component_exact]
    exact pairing_takeOff hw others
  rw [hleft, pairing_comm p.residual (project p w).2.residual,
    pairing_comm w.vector.values (project p w).2.residual, hleft, hleft,
    pairing_comm w.vector.values p.residual, ← hnorm]
  field_simp
  ring

theorem takeOff_zero {values : List ℚ} (h : values.length = residual.length) :
    takeOff 0 residual values = residual :=
  List.ext_getElem (length_takeOff h) fun i _ _ => by simp [takeOff_exact]

theorem passOver_eq_iff {p : Pass ℚ} {ws : List (Weighted ℚ)} :
    (passOver p ws).1 = ws ↔ ∀ c ∈ amounts p ws, c = 0 := by
  induction ws generalizing p with
  | nil => exact iff_of_true rfl nofun
  | cons w ws ih =>
    have hfirst : (project p w).1 = w ↔ component p.residual w.vector = 0 := by
      rw [project, ← add_eq_left (a := w.weight)]
      exact ⟨congrArg Weighted.weight, fun h => by rw [h]⟩
    rw [passOver, amounts, List.forall_mem_cons, ← ih, ← hfirst]
    exact List.cons_eq_cons

/-- It adds nothing if the residual is orthogonal to every vector. -/
theorem amounts_eq_zero_iff {p : Pass ℚ} {ws : List (Weighted ℚ)}
    (hws : Sized p.residual.length (ws.map Weighted.vector))
    (hnormed : Normed (ws.map Weighted.vector)) :
    (∀ c ∈ amounts p ws, c = 0) ↔
      ∀ v ∈ ws.map Weighted.vector, pairing p.residual v.values = 0 := by
  induction ws generalizing p with
  | nil => exact iff_of_true nofun nofun
  | cons w ws ih =>
    obtain ⟨hw, hrest⟩ := List.forall_mem_cons.mp hws
    obtain ⟨⟨-, hpos⟩, hnormed⟩ := List.forall_mem_cons.mp hnormed
    have hfirst : component p.residual w.vector = 0 ↔ pairing p.residual w.vector.values = 0 := by
      rw [component_exact, div_eq_zero_iff, or_iff_left hpos.ne']
    rw [amounts, List.forall_mem_cons, List.map_cons, List.forall_mem_cons, hfirst]
    refine and_congr_right fun hzero => ?_
    -- Nothing is taken off, so the rest of the pass sees the same residual.
    have hsame : (project p w).2.residual = p.residual := by
      rw [project, hfirst.mpr hzero]
      exact takeOff_zero hw
    rw [ih (hsame ▸ hrest) hnormed, hsame]

/-- The residual is orthogonal to every vector just where no other weights leave a smaller error. -/
theorem Leaves.orthogonal_iff (h : Leaves ws ys residual)
    (hws : Sized ys.length (ws.map Weighted.vector)) (hnormed : Normed (ws.map Weighted.vector)) :
    (∀ v ∈ ws.map Weighted.vector, pairing residual v.values = 0) ↔
      ∀ ws', ws'.map Weighted.vector = ws.map Weighted.vector →
        squaredMisfit ys ws ≤ squaredMisfit ys ws' := by
  constructor
  · intro horthogonal ws' hvectors
    rw [h.squaredMisfit_other hws horthogonal hvectors]
    exact le_add_of_nonneg_right (Finset.sum_nonneg fun i _ => sq_nonneg _)
  · -- The weights after a projection on the vector would leave less by the part along it.
    intro hleast v hv
    obtain ⟨hnorm, hpos⟩ := hnormed v hv
    have hlength : v.values.length = residual.length := (hws v hv).trans h.length.symm
    obtain ⟨w, hw, rfl⟩ := List.mem_map.mp hv
    obtain ⟨before, after, rfl⟩ := List.append_of_mem hw
    have hprojected := Leaves.projected (p := ⟨residual, 0⟩) h hlength
    have hle := hleast _ (vector_projected before after w ⟨residual, 0⟩)
    rw [h.squaredMisfit_eq, hprojected.squaredMisfit_eq, pairing_project hlength hnorm hpos] at hle
    have hpart : pairing residual w.vector.values ^ 2 / w.vector.norm ≤ 0 := by linarith
    rw [div_le_iff₀ hpos, zero_mul] at hpart
    exact pow_eq_zero_iff two_ne_zero |>.mp (le_antisymm hpart (sq_nonneg _))

end

namespace PassState
variable [Precision] {vs : List (BasisVector ℚ)} {ys : List ℚ} {s s' : PassState ℚ}

/-- The vectors are the ones given, and the residual is what their weights leave. -/
structure Sound (vs : List (BasisVector ℚ)) (ys : List ℚ) (s : PassState ℚ) : Prop where
  vectors : s.weighted.map Weighted.vector = vs
  leaves : Leaves s.weighted ys s.pass.residual

theorem sound_start (vs : List (BasisVector ℚ)) (ys : List ℚ) : Sound vs ys (start vs ys) := by
  refine ⟨vector_unweighted vs, rfl, fun i => ?_⟩
  rw [weighted, start, List.nil_append, fitted_unweighted, sub_zero]

theorem Sound.step (h : Sound vs ys s) (hvs : Sized ys.length vs) (hstep : Step s s') :
    Sound vs ys s' := by
  obtain ⟨hvectors, hleaves⟩ := h
  cases hstep with
  | project before w after p =>
    have hw : w.vector.values.length = p.residual.length := by
      rw [hleaves.length]
      exact hvs _ (hvectors ▸ List.mem_map_of_mem (List.mem_append_right before List.mem_cons_self))
    have hweighted : weighted ⟨before ++ [(project p w).1], after, (project p w).2⟩ =
        before ++ (project p w).1 :: after := List.append_assoc before [(project p w).1] after
    refine ⟨?_, ?_⟩
    · rw [hweighted, vector_projected]
      exact hvectors
    · rw [hweighted]
      exact hleaves.projected hw
  | turn ws p =>
    rw [weighted, List.append_nil] at hvectors hleaves
    exact ⟨hvectors, hleaves⟩

/-- No step makes the residual greater. -/
theorem Sound.step_le (h : Sound vs ys s) (hvs : Sized ys.length vs) (hnormed : Normed vs)
    (hstep : Step s s') :
    pairing s'.pass.residual s'.pass.residual ≤ pairing s.pass.residual s.pass.residual := by
  obtain ⟨hvectors, hleaves⟩ := h
  cases hstep with
  | project before w after p =>
    have hmem : w.vector ∈ vs :=
      hvectors ▸ List.mem_map_of_mem (List.mem_append_right before List.mem_cons_self)
    obtain ⟨hnorm, hpos⟩ := hnormed _ hmem
    rw [pairing_project ((hvs _ hmem).trans hleaves.length.symm) hnorm hpos]
    exact sub_le_self _ (div_nonneg (sq_nonneg _) hpos.le)
  | turn ws p => exact le_refl _

theorem Sound.steps (h : Sound vs ys s) (hvs : Sized ys.length vs) (hsteps : Steps s s') :
    Sound vs ys s' := by
  induction hsteps with
  | refl => exact h
  | tail _ hstep ih => exact ih.step hvs hstep

end PassState

/-- Passes over any vectors with their sums of squares, none of them zero. After any number of
steps, which are all that a fit makes, the residual is what the weights leave of the samples, and no
further step makes it greater. Where a pass begins, it leaves the weights as they are just if it
adds nothing to any of them, just if the residual is orthogonal to every vector, and just if no
other weights of these vectors leave a smaller squared error. -/
theorem passes_descend [Precision] {vs : List (BasisVector ℚ)} {ys : List ℚ}
    (hvs : Sized ys.length vs) (hnormed : Normed vs) :
    (∀ tolerance passes ws count,
      refine tolerance passes 0 (unweighted vs) ys = some (ws, count) →
      ∃ s, (PassState.start vs ys).Steps s ∧ s.weighted = ws) ∧
    ∀ s, (PassState.start vs ys).Steps s →
      s.weighted.map Weighted.vector = vs ∧ s.pass.residual.length = ys.length ∧
      (∀ i, s.pass.residual.getD i 0 = ys.getD i 0 - fitted s.weighted i) ∧
      (∀ s', s.Step s' →
        pairing s'.pass.residual s'.pass.residual ≤ pairing s.pass.residual s.pass.residual) ∧
      (s.before = [] → [(passOver s.pass s.after).1 = s.after,
        ∀ c ∈ amounts s.pass s.after, c = 0,
        ∀ v ∈ vs, pairing s.pass.residual v.values = 0,
        ∀ ws, ws.map Weighted.vector = vs →
          squaredMisfit ys s.weighted ≤ squaredMisfit ys ws].TFAE) := by
  refine ⟨fun tolerance passes ws count h => PassState.exists_steps_refine h, fun s hsteps => ?_⟩
  have hsound := (PassState.sound_start vs ys).steps hvs hsteps
  have hnext (s' : PassState ℚ) (hstep : s.Step s') := hsound.step_le hvs hnormed hstep
  obtain ⟨hvectors, hleaves⟩ := hsound
  refine ⟨hvectors, hleaves.length, hleaves.eq, hnext, fun hbegins => ?_⟩
  obtain ⟨before, ws, p⟩ := s
  subst hbegins
  subst hvectors
  tfae_have 1 ↔ 2 := passOver_eq_iff
  tfae_have 2 ↔ 3 := amounts_eq_zero_iff (hleaves.length ▸ hvs) hnormed
  tfae_have 3 ↔ 4 := hleaves.orthogonal_iff hvs hnormed
  tfae_finish

def skewVectors : List (BasisVector ℚ) := [⟨[1, 1], 2, 0, 0⟩, ⟨[1, 0], 1, 0, 0⟩]

theorem skew_vectors_take_passes :
    letI : Precision := ⟨1 / 2 ^ 52⟩
    (passOver ⟨[1, 3], zero⟩ (unweighted skewVectors)).1 ≠ unweighted skewVectors ∧
      ∃ ws, ws.map Weighted.vector = skewVectors ∧
        squaredMisfit [1, 3] ws < squaredMisfit [1, 3] (unweighted skewVectors) := by
  let _ : Precision := ⟨1 / 2 ^ 52⟩
  have hsized : Sized ([1, 3] : List ℚ).length skewVectors := by simp [Sized, skewVectors]
  have hnormed : Normed skewVectors := by norm_num [Normed, skewVectors]
  obtain ⟨-, hreached⟩ := passes_descend hsized hnormed
  obtain ⟨-, -, -, -, hbegins⟩ := hreached _ .refl
  have hsettled := hbegins rfl
  have hskew : ¬ ∀ v ∈ skewVectors, pairing [1, 3] v.values = 0 := by norm_num [skewVectors]
  refine ⟨fun h => hskew ((hsettled.out 0 2).mp h), ?_⟩
  by_contra hleast
  simp only [not_exists, not_and, not_lt] at hleast
  exact hskew ((hsettled.out 3 2).mp hleast)

end SweepReport
