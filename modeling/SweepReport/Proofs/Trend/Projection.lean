import SweepReport.Proofs.Trend.Exact
import SweepReport.Proofs.Trend.Passes

/-! The passes of a fit in exact arithmetic. A projection moves a part of the residual into a weight, so
what the weights give and the residual together stay as they are; over vectors that are orthogonal to
each other one pass leaves a residual that is orthogonal to all of them. -/
namespace SweepReport

section
variable {xs ys zs : List ℚ}

theorem pairing_comm (xs ys : List ℚ) : pairing xs ys = pairing ys xs := by
  rw [pairing, pairing, List.zipWith_comm]
  simp only [mul_comm]

@[simp] theorem pairing_cons (x y : ℚ) (xs ys : List ℚ) :
    pairing (x :: xs) (y :: ys) = x * y + pairing xs ys := by
  simp [pairing]

@[simp] theorem pairing_nil (ys : List ℚ) : pairing [] ys = 0 := rfl

end

section
variable [Precision] {c : ℚ} {residual values : List ℚ}

theorem takeOff_exact (c : ℚ) (residual values : List ℚ) :
    takeOff c residual values = List.zipWith (fun r v => r - c * v) residual values := rfl

theorem getD_takeOff (h : values.length = residual.length) (i : Nat) :
    (takeOff c residual values).getD i 0 = residual.getD i 0 - c * values.getD i 0 := by
  by_cases hi : i < residual.length
  · simp [takeOff_exact, hi, h ▸ hi]
  · simp [takeOff_exact, hi, h]

theorem pairing_takeOff (h : values.length = residual.length) (others : List ℚ) :
    pairing (takeOff c residual values) others =
      pairing residual others - c * pairing values others := by
  induction residual generalizing values others with
  | nil =>
    obtain rfl := List.length_eq_zero_iff.mp h
    simp [takeOff_exact]
  | cons r rs ih =>
    obtain ⟨v, vs, rfl⟩ := List.exists_cons_of_length_eq_add_one h
    cases others with
    | nil => simp [pairing]
    | cons o os =>
      have hrest := ih (Nat.succ.inj h) os
      rw [takeOff_exact] at hrest ⊢
      rw [List.zipWith_cons_cons, pairing_cons, pairing_cons, pairing_cons, hrest]
      ring

theorem component_exact (residual : List ℚ) (v : BasisVector ℚ) :
    component residual v = pairing residual v.values / v.norm :=
  congrArg (· / v.norm) (dot_exact _ _)

end

/-- What the weights give at a sample. -/
def fitted (ws : List (Weighted ℚ)) (i : Nat) : ℚ :=
  (ws.map fun w => w.weight * w.vector.values.getD i 0).sum

@[simp] theorem fitted_nil (i : Nat) : fitted [] i = 0 := rfl

@[simp] theorem fitted_cons (w : Weighted ℚ) (ws : List (Weighted ℚ)) (i : Nat) :
    fitted (w :: ws) i = w.weight * w.vector.values.getD i 0 + fitted ws i := List.sum_cons

/-- Vectors that are orthogonal to each other, with their sums of squares, none of them zero. -/
structure Apart (vs : List (BasisVector ℚ)) : Prop where
  pairwise : vs.Pairwise fun v w => pairing v.values w.values = 0
  norm : ∀ v ∈ vs, v.norm = pairing v.values v.values ∧ v.norm ≠ 0

section
variable [Precision] {n : Nat} {ws : List (Weighted ℚ)} {p : Pass ℚ}

theorem fitted_unweighted (vs : List (BasisVector ℚ)) (i : Nat) : fitted (unweighted vs) i = 0 := by
  induction vs with
  | nil => rfl
  | cons v vs ih =>
    rw [unweighted, List.map_cons, fitted_cons, ← unweighted, ih, zero_exact, zero_mul, zero_add]

theorem project_conserves {w : Weighted ℚ} (hw : w.vector.values.length = p.residual.length) (i : Nat) :
    (project p w).1.weight * w.vector.values.getD i 0 + (project p w).2.residual.getD i 0 =
      w.weight * w.vector.values.getD i 0 + p.residual.getD i 0 := by
  simp only [project, getD_takeOff hw]
  ring

theorem passOver_conserves (hws : Sized p.residual.length (ws.map Weighted.vector)) (i : Nat) :
    fitted (passOver p ws).1 i + (passOver p ws).2.residual.getD i 0 =
      fitted ws i + p.residual.getD i 0 := by
  induction ws generalizing p with
  | nil => rfl
  | cons w ws ih =>
    obtain ⟨hw, hrest⟩ := List.forall_mem_cons.mp hws
    have hlength : (project p w).2.residual.length = p.residual.length := length_takeOff hw
    have hpass := ih (p := (project p w).2) (hlength ▸ hrest)
    have hstep := project_conserves hw i
    have hvector : (project p w).1.vector = w.vector := rfl
    rw [passOver]
    dsimp only
    rw [fitted_cons, fitted_cons, hvector]
    linarith

/-- What is orthogonal to the residual and to all vectors stays so. -/
theorem passOver_apart (hws : Sized p.residual.length (ws.map Weighted.vector)) {others : List ℚ}
    (hresidual : pairing p.residual others = 0)
    (hothers : ∀ v ∈ ws.map Weighted.vector, pairing v.values others = 0) :
    pairing (passOver p ws).2.residual others = 0 := by
  induction ws generalizing p with
  | nil => exact hresidual
  | cons w ws ih =>
    obtain ⟨hw, hrest⟩ := List.forall_mem_cons.mp hws
    obtain ⟨hzero, hothers⟩ := List.forall_mem_cons.mp hothers
    have hlength : (project p w).2.residual.length = p.residual.length := length_takeOff hw
    rw [passOver]
    dsimp only
    refine ih (hlength ▸ hrest) ?_ hothers
    rw [project]
    dsimp only
    rw [pairing_takeOff hw, hresidual, hzero]
    ring

theorem passOver_orthogonal (hws : Sized p.residual.length (ws.map Weighted.vector))
    (hapart : Apart (ws.map Weighted.vector)) :
    ∀ v ∈ ws.map Weighted.vector, pairing (passOver p ws).2.residual v.values = 0 := by
  induction ws generalizing p with
  | nil => exact fun v hv => absurd hv (List.not_mem_nil)
  | cons w ws ih =>
    obtain ⟨hw, hrest⟩ := List.forall_mem_cons.mp hws
    obtain ⟨hfirst, hpairwise⟩ := List.pairwise_cons.mp hapart.pairwise
    obtain ⟨⟨hnorm, hne⟩, hnorms⟩ := List.forall_mem_cons.mp hapart.norm
    have hlength : (project p w).2.residual.length = p.residual.length := length_takeOff hw
    have hself : pairing (project p w).2.residual w.vector.values = 0 := by
      rw [project]
      dsimp only
      rw [pairing_takeOff hw, component_exact, ← hnorm, div_mul_cancel₀ _ hne, sub_self]
    rw [passOver]
    dsimp only
    refine List.forall_mem_cons.mpr ⟨?_, ih (hlength ▸ hrest) ⟨hpairwise, hnorms⟩⟩
    refine passOver_apart (hlength ▸ hrest) hself fun v hv => ?_
    rw [pairing_comm]
    exact hfirst v hv

end

/-- Weights and residual that passes made of others, the residual orthogonal to every vector. -/
structure Settled (ws : List (Weighted ℚ)) (residual : List ℚ) (ws' : List (Weighted ℚ))
    (left : List ℚ) : Prop where
  vectors : ws'.map Weighted.vector = ws.map Weighted.vector
  length : left.length = residual.length
  conserves : ∀ i, fitted ws' i + left.getD i 0 = fitted ws i + residual.getD i 0
  orthogonal : ∀ v ∈ ws.map Weighted.vector, pairing left v.values = 0

theorem Settled.trans {ws ws₁ ws₂ : List (Weighted ℚ)} {residual left₁ left₂ : List ℚ}
    (h₁ : Settled ws residual ws₁ left₁) (h₂ : Settled ws₁ left₁ ws₂ left₂) :
    Settled ws residual ws₂ left₂ where
  vectors := h₂.vectors.trans h₁.vectors
  length := h₂.length.trans h₁.length
  conserves i := (h₂.conserves i).trans (h₁.conserves i)
  orthogonal v hv := h₂.orthogonal v (h₁.vectors ▸ hv)

section
variable [Precision] {ws : List (Weighted ℚ)} {residual : List ℚ}

theorem settled_passOver (change : ℚ) (hws : Sized residual.length (ws.map Weighted.vector))
    (hapart : Apart (ws.map Weighted.vector)) :
    Settled ws residual (passOver ⟨residual, change⟩ ws).1
      (passOver ⟨residual, change⟩ ws).2.residual where
  vectors := vector_passOver _ ws
  length := length_passOver hws
  conserves := passOver_conserves hws
  orthogonal := passOver_orthogonal hws hapart

theorem refine_exact (tolerance : ℚ) (passes done : Nat) (ws : List (Weighted ℚ))
    (residual : List ℚ) :
    refine tolerance (passes + 1) done ws residual =
      if (passOver ⟨residual, 0⟩ ws).2.change ≤ tolerance then
        some ((passOver ⟨residual, 0⟩ ws).1, some (done + 1))
      else refine tolerance passes (done + 1) (passOver ⟨residual, 0⟩ ws).1
        (passOver ⟨residual, 0⟩ ws).2.residual := by
  simp [refine]

/-- The passes end with weights whose residual is orthogonal to every vector. -/
theorem refine_settles (tolerance : ℚ) (passes done : Nat)
    (hws : Sized residual.length (ws.map Weighted.vector))
    (hapart : Apart (ws.map Weighted.vector)) :
    ∃ ws' count left, refine tolerance (passes + 1) done ws residual = some (ws', count) ∧
      Settled ws residual ws' left := by
  induction passes generalizing done ws residual with
  | zero =>
    have hpass := settled_passOver 0 hws hapart
    rw [refine_exact]
    split
    · exact ⟨_, _, _, rfl, hpass⟩
    · exact ⟨_, _, _, rfl, hpass⟩
  | succ passes ih =>
    have hpass := settled_passOver 0 hws hapart
    rw [refine_exact]
    split
    · exact ⟨_, _, _, rfl, hpass⟩
    · have hnext : Sized (passOver ⟨residual, 0⟩ ws).2.residual.length
          ((passOver ⟨residual, 0⟩ ws).1.map Weighted.vector) := by
        rwa [hpass.vectors, hpass.length]
      obtain ⟨ws', count, left, hrefine, hsettled⟩ := ih (done + 1) hnext (by rwa [hpass.vectors])
      exact ⟨ws', count, left, hrefine, hpass.trans hsettled⟩

end

end SweepReport
