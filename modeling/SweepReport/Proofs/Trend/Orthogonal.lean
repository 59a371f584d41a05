import SweepReport.Proofs.Trend.Exact
import SweepReport.Proofs.Trend.Passes

/-! The basis of a fit in exact arithmetic: the values at the samples of monic polynomials, each
orthogonal to every polynomial of lower degree. The recurrence preserves that, and a monic polynomial
whose degree is below the number of different samples is not zero on all of them. -/
namespace SweepReport
open Polynomial

/-- The sum of the values at the samples. -/
noncomputable def total (ts : List ℚ) : ℚ[X] →ₗ[ℚ] ℚ := (ts.map fun t => leval t).sum

theorem total_apply (ts : List ℚ) (p : ℚ[X]) : total ts p = (ts.map fun t => p.eval t).sum := by
  induction ts with
  | nil => rfl
  | cons t ts ih =>
    simp only [total, List.map_cons, List.sum_cons, LinearMap.add_apply, leval_apply] at ih ⊢
    rw [ih]

theorem total_C_mul (ts : List ℚ) (c : ℚ) (p : ℚ[X]) : total ts (C c * p) = c * total ts p := by
  rw [← smul_eq_C_mul, map_smul, smul_eq_mul]

theorem pairing_values (ts : List ℚ) (p q : ℚ[X]) :
    pairing (ts.map fun t => p.eval t) (ts.map fun t => q.eval t) = total ts (p * q) := by
  rw [pairing, total_apply, List.zipWith_map, List.zipWith_self]
  simp only [eval_mul]

/-- A monic polynomial of the degree that is orthogonal to all of lower degree. -/
structure Orthogonal (ts : List ℚ) (k : Nat) (p : ℚ[X]) : Prop where
  monic : p.Monic
  natDegree : p.natDegree = k
  apart : ∀ r : ℚ[X], r.degree < k → total ts (p * r) = 0

section
variable {ts : List ℚ} {k : Nat} {p : ℚ[X]}

theorem eq_zero_of_degree_lt {r : ℚ[X]} (hr : r.degree < (0 : Nat)) : r = 0 := by
  rwa [Nat.cast_zero, Nat.WithBot.lt_zero_iff, degree_eq_bot] at hr

theorem orthogonal_one (ts : List ℚ) : Orthogonal ts 0 1 := by
  refine ⟨monic_one, natDegree_one, fun r hr => ?_⟩
  rw [eq_zero_of_degree_lt hr, mul_zero, map_zero]

theorem Orthogonal.coeff_self (h : Orthogonal ts k p) : p.coeff k = 1 := by
  rw [← h.natDegree]
  exact h.monic.coeff_natDegree

/-- A polynomial of no higher degree is a multiple and a polynomial of lower degree. -/
theorem Orthogonal.exists_split (h : Orthogonal ts k p) {r : ℚ[X]} (hr : r.degree < (k + 1 : Nat)) :
    ∃ s : ℚ[X], s.degree < k ∧ r = C (r.coeff k) * p + s := by
  refine ⟨r - C (r.coeff k) * p, ?_, by ring⟩
  rw [degree_lt_iff_coeff_zero] at hr ⊢
  intro m hm
  rw [coeff_sub, coeff_C_mul]
  rcases Nat.eq_or_lt_of_le hm with rfl | hlt
  · rw [h.coeff_self, mul_one, sub_self]
  · have hp : p.coeff m = 0 := coeff_eq_zero_of_natDegree_lt (h.natDegree ▸ hlt)
    rw [hr m hlt, hp, mul_zero, sub_zero]

/-- Against a polynomial of its own degree only the leading coefficient counts. -/
theorem Orthogonal.total_mul (h : Orthogonal ts k p) {r : ℚ[X]} (hr : r.degree < (k + 1 : Nat)) :
    total ts (p * r) = r.coeff k * total ts (p * p) := by
  obtain ⟨s, hs, hsplit⟩ := h.exists_split hr
  have hproduct : p * r = C (r.coeff k) * (p * p) + p * s := by
    conv_lhs => rw [hsplit]
    ring
  rw [hproduct, map_add, h.apart s hs, add_zero, total_C_mul]

theorem sq_mem_nonneg (ts : List ℚ) (p : ℚ[X]) : ∀ x ∈ ts.map fun t => (p * p).eval t, 0 ≤ x := by
  intro x hx
  obtain ⟨t, -, rfl⟩ := List.mem_map.mp hx
  rw [eval_mul]
  exact mul_self_nonneg _

theorem total_sq_nonneg (ts : List ℚ) (p : ℚ[X]) : 0 ≤ total ts (p * p) := by
  rw [total_apply]
  exact List.sum_nonneg (sq_mem_nonneg ts p)

/-- A sum of squares is zero only where every square is. -/
theorem eval_eq_zero_of_total_sq (hp : total ts (p * p) = 0) {t : ℚ} (ht : t ∈ ts) :
    p.eval t = 0 := by
  rw [total_apply] at hp
  have hle := List.single_le_sum (sq_mem_nonneg ts p) _ (List.mem_map_of_mem ht)
  rw [hp, eval_mul] at hle
  exact mul_self_eq_zero.mp (le_antisymm hle (mul_self_nonneg _))

/-- A polynomial that is zero on more different samples than its degree is zero. -/
theorem eq_zero_of_eval_eq_zero (hp : ∀ t ∈ ts, p.eval t = 0)
    (hdegree : p.natDegree < ts.toFinset.card) : p = 0 := by
  by_contra hne
  have hroots : ts.toFinset.val ⊆ p.roots := fun t ht =>
    (mem_roots hne).mpr (hp t (List.mem_toFinset.mp ht))
  exact absurd (card_le_degree_of_subset_roots hroots) (Nat.not_le_of_lt hdegree)

theorem Orthogonal.total_sq_pos (h : Orthogonal ts k p) (hk : k < ts.toFinset.card) :
    0 < total ts (p * p) := by
  refine lt_of_le_of_ne (total_sq_nonneg ts p) fun hzero => h.monic.ne_zero ?_
  exact eq_zero_of_eval_eq_zero (fun t ht => eval_eq_zero_of_total_sq hzero.symm ht)
    (h.natDegree.symm ▸ hk)

end

/-- What the recurrence has reached: the polynomial of degree `k`, and the one before it with its sum
of squares. -/
structure Reached (ts : List ℚ) (k : Nat) (prev cur : ℚ[X]) (prevNorm : ℚ) : Prop where
  cur : Orthogonal ts k cur
  first : k = 0 → prev = 0
  prev : ∀ j, k = j + 1 → Orthogonal ts j prev ∧ prevNorm = total ts (prev * prev) ∧ prevNorm ≠ 0

/-- The polynomial after `cur`, where `prev` comes before it. -/
noncomputable def nextPolynomial (alpha beta : ℚ) (prev cur : ℚ[X]) : ℚ[X] :=
  (X - C alpha) * cur - C beta * prev

theorem total_next_mul (ts : List ℚ) (alpha beta : ℚ) (prev cur r : ℚ[X]) :
    total ts (nextPolynomial alpha beta prev cur * r) =
      total ts (cur * (X * r)) - alpha * total ts (cur * r) - beta * total ts (prev * r) := by
  have hsplit : nextPolynomial alpha beta prev cur * r =
      cur * (X * r) - C alpha * (cur * r) - C beta * (prev * r) := by
    rw [nextPolynomial]
    ring
  rw [hsplit, map_sub, map_sub, total_C_mul, total_C_mul]

section
variable {ts : List ℚ} {k : Nat} {prev cur : ℚ[X]} {prevNorm : ℚ}

theorem Reached.degree_prev_lt (h : Reached ts k prev cur prevNorm) : prev.degree < k := by
  cases k with
  | zero =>
    rw [h.first rfl, degree_zero]
    exact WithBot.bot_lt_coe 0
  | succ j =>
    have hprev := (h.prev j rfl).1
    rw [degree_eq_natDegree hprev.monic.ne_zero, hprev.natDegree]
    exact_mod_cast Nat.lt_succ_self j

theorem Reached.monic_next (h : Reached ts k prev cur prevNorm) (alpha beta : ℚ) :
    (nextPolynomial alpha beta prev cur).Monic ∧
      (nextPolynomial alpha beta prev cur).natDegree = k + 1 := by
  have hmonic : ((X - C alpha) * cur).Monic := (monic_X_sub_C alpha).mul h.cur.monic
  have hnat : ((X - C alpha) * cur).natDegree = k + 1 := by
    rw [(monic_X_sub_C alpha).natDegree_mul h.cur.monic, natDegree_X_sub_C, h.cur.natDegree,
      Nat.add_comm]
  have hlower : (C beta * prev).degree < ((X - C alpha) * cur).degree := by
    rw [degree_eq_natDegree hmonic.ne_zero, hnat]
    rw [← smul_eq_C_mul]
    refine lt_of_le_of_lt (degree_smul_le beta prev) (lt_trans h.degree_prev_lt ?_)
    exact_mod_cast Nat.lt_succ_self k
  refine ⟨hmonic.sub_of_left hlower, ?_⟩
  rw [nextPolynomial, natDegree_eq_of_degree_eq (degree_sub_eq_left_of_degree_lt hlower), hnat]

/-- Against lower degrees the polynomial before takes away what multiplying by `X` brought in. -/
theorem Reached.apart_lower (h : Reached ts k prev cur prevNorm) {beta : ℚ}
    (hbeta : ∀ j, k = j + 1 → beta = total ts (cur * cur) / prevNorm) {r : ℚ[X]}
    (hr : r.degree < k) : total ts (cur * (X * r)) - beta * total ts (prev * r) = 0 := by
  cases k with
  | zero =>
    simp [eq_zero_of_degree_lt hr]
  | succ j =>
    obtain ⟨hprev, hnorm, hne⟩ := h.prev j rfl
    have hX : (X * r).degree < ((j + 1 + 1 : Nat) : WithBot Nat) := by
      rw [degree_lt_iff_coeff_zero] at hr ⊢
      intro m hm
      obtain ⟨m, rfl⟩ : ∃ n, m = n + 1 := Nat.exists_eq_succ_of_ne_zero (by omega)
      rw [coeff_X_mul]
      exact hr m (by omega)
    rw [h.cur.total_mul hX, coeff_X_mul, hprev.total_mul hr, hbeta j rfl, ← hnorm]
    field_simp
    ring

/-- The choice of the two numbers makes the next polynomial orthogonal to this one, and to all
below. -/
theorem Reached.step (h : Reached ts k prev cur prevNorm) (hnorm : total ts (cur * cur) ≠ 0)
    {alpha beta : ℚ} (halpha : alpha = total ts (cur * (X * cur)) / total ts (cur * cur))
    (hbeta : ∀ j, k = j + 1 → beta = total ts (cur * cur) / prevNorm) :
    Reached ts (k + 1) cur (nextPolynomial alpha beta prev cur) (total ts (cur * cur)) := by
  obtain ⟨hmonic, hnat⟩ := h.monic_next alpha beta
  refine ⟨⟨hmonic, hnat, fun r hr => ?_⟩, fun hk => absurd hk (Nat.succ_ne_zero k), fun j hj => ?_⟩
  · -- A part along `cur`, and a part of lower degree.
    obtain ⟨s, hs, hr⟩ := h.cur.exists_split hr
    have hself : total ts (nextPolynomial alpha beta prev cur * cur) = 0 := by
      have hprev : total ts (prev * cur) = 0 := by
        rw [mul_comm]
        exact h.cur.apart prev h.degree_prev_lt
      rw [total_next_mul, hprev, halpha, div_mul_cancel₀ _ hnorm]
      ring
    have hlower : total ts (nextPolynomial alpha beta prev cur * s) = 0 := by
      rw [total_next_mul, h.cur.apart s hs, mul_zero, sub_zero]
      exact h.apart_lower hbeta hs
    rw [hr, mul_add, mul_left_comm, map_add, total_C_mul, hself, hlower, mul_zero, add_zero]
  · obtain rfl := Nat.succ.inj hj
    exact ⟨h.cur, rfl, hnorm⟩

end

/-- The vectors are the values of the recurrence's polynomials from the degree `k` on, each orthogonal
to all lower degrees and not zero on the samples. -/
inductive IsBasis (ts : List ℚ) : Nat → ℚ[X] → ℚ[X] → List (BasisVector ℚ) → Prop
  | nil (k : Nat) (prev cur : ℚ[X]) : IsBasis ts k prev cur []
  | cons {k : Nat} {prev cur : ℚ[X]} {v : BasisVector ℚ} {vs : List (BasisVector ℚ)}
    (values : v.values = ts.map fun t => cur.eval t) (norm : v.norm = total ts (cur * cur))
    (pos : 0 < v.norm) (orthogonal : Orthogonal ts k cur)
    (rest : IsBasis ts (k + 1) cur (nextPolynomial v.alpha v.beta prev cur) vs) :
    IsBasis ts k prev cur (v :: vs)

section
variable [Precision] {ts : List ℚ}

theorem alphaOf_exact (cur : ℚ[X]) (norm : ℚ) :
    alphaOf ts (ts.map fun t => cur.eval t) norm = total ts (cur * (X * cur)) / norm := by
  have hsum : (List.zipWith (fun t p => t * p * p) ts (ts.map fun t => cur.eval t)).sum =
      total ts (cur * (X * cur)) := by
    rw [total_apply, List.zipWith_map_right, List.zipWith_self]
    refine congrArg List.sum (List.map_congr_left fun t _ => ?_)
    simp only [eval_mul, eval_X]
    ring
  rw [← hsum]
  exact congrArg (· / norm) (sum_exact _)

theorem nextValues_exact (alpha beta : ℚ) (prev cur : ℚ[X]) :
    nextValues alpha beta ts (ts.map fun t => cur.eval t) (ts.map fun t => prev.eval t) =
      ts.map fun t => (nextPolynomial alpha beta prev cur).eval t := by
  rw [nextValues_map]
  refine List.map_congr_left fun t _ => ?_
  simp [recur_exact, nextPolynomial]

/-- Below the number of different samples the basis never vanishes. -/
theorem basisFrom_isBasis {count k : Nat} {prev cur : ℚ[X]} {prevNorm : ℚ}
    (h : Reached ts k prev cur prevNorm) (hcount : k + count ≤ ts.toFinset.card) :
    ∃ vs, basisFrom ts count k (ts.map fun t => prev.eval t) (ts.map fun t => cur.eval t) prevNorm =
      (vs, none) ∧ vs.length = count ∧ IsBasis ts k prev cur vs := by
  induction count generalizing k prev cur prevNorm with
  | zero => exact ⟨[], rfl, rfl, .nil k prev cur⟩
  | succ count ih =>
    have hpos : 0 < total ts (cur * cur) := h.cur.total_sq_pos (by omega)
    obtain ⟨alpha, halpha⟩ : ∃ a, a = total ts (cur * (X * cur)) / total ts (cur * cur) := ⟨_, rfl⟩
    obtain ⟨beta, hbeta⟩ : ∃ b, b = if k = 0 then 0 else total ts (cur * cur) / prevNorm := ⟨_, rfl⟩
    have hratio (j : Nat) (hj : k = j + 1) : beta = total ts (cur * cur) / prevNorm := by
      rw [hbeta, if_neg (by omega)]
    have hnext := h.step hpos.ne' halpha hratio
    obtain ⟨vs, hvs, hlength, hbasis⟩ := ih hnext (by omega)
    refine ⟨⟨ts.map fun t => cur.eval t, total ts (cur * cur), alpha, beta⟩ :: vs, ?_,
      congrArg (· + 1) hlength, .cons rfl rfl hpos h.cur hbasis⟩
    rw [basisFrom, dot_exact, pairing_values, isUsable_exact]
    simp only [decide_eq_true hpos, if_true, alphaOf_exact, ← halpha, zero_exact, ← hbeta,
      nextValues_exact, hvs]

theorem basis_isBasis {degree : Nat} (hdegree : degree < ts.toFinset.card) :
    ∃ vs, basis ts degree = (vs, none) ∧ vs.length = degree + 1 ∧ IsBasis ts 0 0 1 vs := by
  have hstart : Reached ts 0 0 1 1 :=
    ⟨orthogonal_one ts, fun _ => rfl, fun j hj => absurd hj (Nat.succ_ne_zero j).symm⟩
  have h := basisFrom_isBasis hstart (show 0 + (degree + 1) ≤ _ by omega)
  simpa [basis] using h

end

end SweepReport
