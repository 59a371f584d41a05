import SweepReport.Proofs.Trend.Orthogonal
import SweepReport.Proofs.Trend.Projection

/-! The normal equations of a fit in exact arithmetic. A trend evaluates to a polynomial, and what the
polynomial leaves of the samples is orthogonal to every polynomial up to the degree of the fit. -/
namespace SweepReport
open Polynomial

noncomputable def moment (ts ys : List ℚ) : ℚ[X] →ₗ[ℚ] ℚ :=
  (List.zipWith (fun t y => y • leval t) ts ys).sum

theorem moment_apply (ts ys : List ℚ) (p : ℚ[X]) :
    moment ts ys p = pairing ys (ts.map fun t => p.eval t) := by
  induction ts generalizing ys with
  | nil => simp [moment, pairing]
  | cons t ts ih =>
    cases ys with
    | nil => rfl
    | cons y ys =>
      have hrest := ih ys
      simp only [moment] at hrest
      simp [moment, hrest]

section
variable {ts : List ℚ} {k : Nat} {prev cur : ℚ[X]} {vs : List (BasisVector ℚ)}

/-- A vector belongs to the polynomial whose degree is its place. -/
theorem IsBasis.orthogonal_at (h : IsBasis ts k prev cur vs) {i : Nat} {v : BasisVector ℚ}
    (hv : vs[i]? = some v) :
    ∃ p : ℚ[X], Orthogonal ts (k + i) p ∧ (v.values = ts.map fun t => p.eval t) ∧
      v.norm = total ts (p * p) ∧ 0 < v.norm := by
  induction h generalizing i with
  | nil => contradiction
  | cons hvalues hnorm hpos horthogonal _ ih =>
    cases i with
    | zero =>
      obtain rfl := Option.some.inj hv
      exact ⟨_, horthogonal, hvalues, hnorm, hpos⟩
    | succ i =>
      obtain ⟨p, hp, hrest⟩ := ih hv
      exact ⟨p, by rwa [Nat.add_right_comm] at hp, hrest⟩

theorem IsBasis.exists_orthogonal (h : IsBasis ts k prev cur vs) :
    ∀ v ∈ vs, ∃ (j : Nat) (p : ℚ[X]), k ≤ j ∧ Orthogonal ts j p ∧
      (v.values = ts.map fun t => p.eval t) ∧ v.norm = total ts (p * p) ∧ 0 < v.norm := by
  intro v hv
  obtain ⟨i, hi⟩ := List.mem_iff_getElem?.mp hv
  obtain ⟨p, hp⟩ := h.orthogonal_at hi
  exact ⟨k + i, p, Nat.le_add_right k i, hp⟩

theorem IsBasis.sized (h : IsBasis ts k prev cur vs) : Sized ts.length vs := by
  intro v hv
  obtain ⟨j, p, -, -, hvalues, -⟩ := h.exists_orthogonal v hv
  rw [hvalues, List.length_map]

theorem IsBasis.apart (h : IsBasis ts k prev cur vs) : Apart vs := by
  refine ⟨?_, fun v hv => ?_⟩
  · induction h with
    | nil => exact .nil
    | cons hvalues _ _ horthogonal hrest ih =>
      refine List.pairwise_cons.mpr ⟨fun w hw => ?_, ih⟩
      obtain ⟨j, p, hj, hp, hw, -⟩ := hrest.exists_orthogonal w hw
      rw [pairing_comm, hvalues, hw, pairing_values]
      refine hp.apart _ ?_
      rw [degree_eq_natDegree horthogonal.monic.ne_zero, horthogonal.natDegree]
      exact_mod_cast hj
  · obtain ⟨j, p, -, -, hvalues, hnorm, hpos⟩ := h.exists_orthogonal v hv
    exact ⟨by rw [hvalues, pairing_values, hnorm], hpos.ne'⟩

/-- What is orthogonal to the vectors is orthogonal to all polynomials below the next degree. -/
theorem IsBasis.moment_eq_zero (h : IsBasis ts k prev cur vs) {left : List ℚ}
    (hlower : ∀ r : ℚ[X], r.degree < k → moment ts left r = 0)
    (hvs : ∀ v ∈ vs, pairing left v.values = 0) :
    ∀ r : ℚ[X], r.degree < (k + vs.length : Nat) → moment ts left r = 0 := by
  induction h with
  | nil => exact hlower
  | cons hvalues _ _ horthogonal _ ih =>
    obtain ⟨hfirst, hvs⟩ := List.forall_mem_cons.mp hvs
    rw [hvalues, ← moment_apply] at hfirst
    rw [List.length_cons, ← Nat.add_assoc, Nat.add_right_comm]
    refine ih (fun r hr => ?_) hvs
    obtain ⟨s, hs, hr⟩ := horthogonal.exists_split hr
    rw [hr, map_add, ← smul_eq_C_mul, map_smul, hfirst, smul_zero, hlower s hs, add_zero]

end

noncomputable def weightedSum : List (Weighted ℚ) → ℚ[X] → ℚ[X] → ℚ[X]
  | [], _, _ => 0
  | w :: ws, prev, cur =>
    C w.weight * cur + weightedSum ws cur (nextPolynomial w.vector.alpha w.vector.beta prev cur)

section
variable {ts : List ℚ} {k : Nat} {prev cur : ℚ[X]} {ws : List (Weighted ℚ)}

theorem fitted_exact (h : IsBasis ts k prev cur (ws.map Weighted.vector)) {i : Nat}
    (hi : i < ts.length) : fitted ws i = (weightedSum ws prev cur).eval ts[i] := by
  induction ws generalizing k prev cur with
  | nil => simp [weightedSum]
  | cons w ws ih =>
    cases h with
    | cons hvalues _ _ _ hrest =>
      rw [fitted_cons, ih hrest, hvalues, weightedSum]
      simp [hi]

theorem degree_weightedSum_lt (h : IsBasis ts k prev cur (ws.map Weighted.vector)) :
    (weightedSum ws prev cur).degree < (k + ws.length : Nat) := by
  induction ws generalizing k prev cur with
  | nil =>
    rw [weightedSum, degree_zero]
    exact WithBot.bot_lt_coe _
  | cons w ws ih =>
    cases h with
    | cons _ _ _ horthogonal hrest =>
      have hrest := ih hrest
      rw [Nat.add_right_comm] at hrest
      refine lt_of_le_of_lt (degree_add_le _ _) (max_lt ?_ hrest)
      rw [← smul_eq_C_mul]
      refine lt_of_le_of_lt (degree_smul_le _ _) ?_
      rw [degree_eq_natDegree horthogonal.monic.ne_zero, horthogonal.natDegree, List.length_cons]
      exact_mod_cast (show k < k + (ws.length + 1) by omega)

variable [Precision]

theorem evalTerms_exact (t : ℚ) (ws : List (Weighted ℚ)) (prev cur : ℚ[X]) (sum : ℚ) :
    Trend.evalTerms t (ws.map termOf) (prev.eval t) (cur.eval t) sum =
      sum + (weightedSum ws prev cur).eval t := by
  induction ws generalizing prev cur sum with
  | nil => simp [Trend.evalTerms, weightedSum]
  | cons w ws ih =>
    have hnext : recur t w.vector.alpha w.vector.beta (prev.eval t) (cur.eval t) =
        (nextPolynomial w.vector.alpha w.vector.beta prev cur).eval t := by
      simp [recur_exact, nextPolynomial]
    have hterms := ih cur (nextPolynomial w.vector.alpha w.vector.beta prev cur)
      (sum + w.weight * cur.eval t)
    rw [← hnext] at hterms
    rw [List.map_cons, Trend.evalTerms, weightedSum, eval_add, eval_mul, eval_C, ← add_assoc,
      ← hterms]
    rfl

theorem eval_exact (ws : List (Weighted ℚ)) (offset scale x : ℚ) :
    Trend.eval ⟨ws.map termOf, offset, scale⟩ x =
      (weightedSum ws 0 1).eval ((x - offset) / scale) := by
  have hterms := evalTerms_exact ((x - offset) / scale) ws 0 1 0
  rw [eval_zero, eval_one, zero_add] at hterms
  rw [← hterms, Trend.eval, zero_exact, one_exact]
  rfl

end

theorem natDegree_comp_linear_le (p : ℚ[X]) (a b : ℚ) :
    (p.comp (C a * X + C b)).natDegree ≤ p.natDegree := by
  rw [natDegree_comp]
  exact (Nat.mul_le_mul_left _ natDegree_linear_le).trans (Nat.mul_one _).le

theorem eval_comp_mapped (p : ℚ[X]) (offset scale x : ℚ) :
    (p.comp (C scale⁻¹ * X + C (-offset / scale))).eval x = p.eval ((x - offset) / scale) := by
  rw [eval_comp]
  congr 1
  simp
  ring

theorem map_eval_mapped (q : ℚ[X]) (xs : List ℚ) (offset : ℚ) {scale : ℚ} (hscale : scale ≠ 0) :
    (xs.map fun x => (x - offset) / scale).map (fun t => (q.comp (C scale * X + C offset)).eval t) =
      xs.map fun x => q.eval x := by
  rw [List.map_map]
  refine List.map_congr_left fun x _ => ?_
  simp [mul_div_cancel₀ _ hscale]

theorem natDegree_le_iff_degree_lt {p : ℚ[X]} {d : Nat} :
    p.natDegree ≤ d ↔ p.degree < (d + 1 : Nat) := by
  rw [natDegree_le_iff_coeff_eq_zero, degree_lt_iff_coeff_zero]
  rfl

theorem card_mapped (xs : List ℚ) (offset : ℚ) {scale : ℚ} (hscale : scale ≠ 0) :
    (xs.map fun x => (x - offset) / scale).toFinset.card = xs.toFinset.card := by
  have hinjective : Function.Injective fun x : ℚ => (x - offset) / scale := fun x y hxy =>
    sub_left_injective ((div_left_inj' hscale).mp hxy)
  have himage : (xs.map fun x => (x - offset) / scale).toFinset =
      xs.toFinset.image fun x => (x - offset) / scale := by
    ext t
    simp
  rw [himage, Finset.card_image_of_injective _ hinjective]

def residuals (xs ys : List ℚ) (f : ℚ → ℚ) : List ℚ := List.zipWith (fun x y => y - f x) xs ys

theorem residuals_weightedSum {xs ys left : List ℚ} {ws : List (Weighted ℚ)} {offset scale : ℚ}
    (hbasis : IsBasis (xs.map fun x => (x - offset) / scale) 0 0 1 (ws.map Weighted.vector))
    (hlength : xs.length = ys.length) (hleft : left.length = ys.length)
    (hconserves : ∀ i, fitted ws i + left.getD i 0 = ys.getD i 0) :
    (residuals xs ys fun x => (weightedSum ws 0 1).eval ((x - offset) / scale)) = left := by
  refine List.ext_getElem (by simp [residuals, hlength, hleft]) fun i hi hi' => ?_
  have hx : i < xs.length := by omega
  have hsum := hconserves i
  rw [fitted_exact hbasis (by rwa [List.length_map])] at hsum
  simp only [List.getElem_map, List.getD_eq_getElem _ _ hi',
    List.getD_eq_getElem _ _ (show i < ys.length by omega)] at hsum
  simp only [residuals, List.getElem_zipWith]
  linarith

section
variable [Precision] {xs ys : List ℚ}

theorem distinct_exact (xs : List ℚ) : distinct xs = xs.dedup := by
  induction xs with
  | nil => rfl
  | cons x xs ih =>
    have hany : xs.any (Scalar.isSame x) = decide (x ∈ xs) := by
      rw [Bool.eq_iff_iff]
      simp
    by_cases hx : x ∈ xs
    · rw [distinct, hany, decide_eq_true hx, if_pos rfl, List.dedup_cons_of_mem hx, ih]
    · rw [distinct, hany, decide_eq_false hx, if_neg Bool.false_ne_true,
        List.dedup_cons_of_notMem hx, ih]

theorem usedDegree_exact (xs : List ℚ) (degree : Nat) :
    usedDegree xs degree = min degree (xs.toFinset.card - 1) := by
  rw [usedDegree, distinct_exact, List.card_toFinset]

theorem halfWidth_ne_zero (least greatest : ℚ) : halfWidth least greatest ≠ 0 := by
  simp only [halfWidth, lt_exact, decide_eq_true_eq, two_exact, one_exact]
  split
  · exact (div_pos (sub_pos.mpr ‹_›) two_pos).ne'
  · exact one_ne_zero

/-- A fit over samples that are not all mapped to one: its weights belong to an orthogonal basis, and
what they leave of the samples is orthogonal to it. -/
theorem exists_weights (offset : ℚ) {scale : ℚ} (hscale : scale ≠ 0) (hne : xs ≠ [])
    (hlength : xs.length = ys.length) (degree : Nat) :
    ∃ (ws : List (Weighted ℚ)) (left : List ℚ),
      (Fit.ofRange offset scale xs ys degree).trend = some ⟨ws.map termOf, offset, scale⟩ ∧
      ws.length = min degree (xs.toFinset.card - 1) + 1 ∧
      IsBasis (xs.map fun x => (x - offset) / scale) 0 0 1 (ws.map Weighted.vector) ∧
      left.length = ys.length ∧ (∀ i, fitted ws i + left.getD i 0 = ys.getD i 0) ∧
      ∀ v ∈ ws.map Weighted.vector, pairing left v.values = 0 := by
  obtain ⟨d, hd⟩ : ∃ d, d = min degree (xs.toFinset.card - 1) := ⟨_, rfl⟩
  have hcard : 0 < xs.toFinset.card :=
    Finset.card_pos.mpr ((List.toFinset_nonempty_iff xs).mpr hne)
  obtain ⟨vs, hbasis, hvs, hisBasis⟩ :=
    basis_isBasis (show d < _ by rw [card_mapped xs offset hscale]; omega)
  have hsized : Sized ys.length ((unweighted vs).map Weighted.vector) := by
    have := hisBasis.sized
    rwa [vector_unweighted, ← hlength, ← List.length_map]
  obtain ⟨ws, count, left, hrefine, hsettled⟩ :=
    refine_settles (toleranceFor ys) 15 0 hsized (by rw [vector_unweighted]; exact hisBasis.apart)
  have hvectors : ws.map Weighted.vector = vs := by rw [hsettled.vectors, vector_unweighted]
  refine ⟨ws, left, ?_, ?_, hvectors ▸ hisBasis, hsettled.length, fun i => ?_, ?_⟩
  · have hnonempty : vs ≠ [] := by
      rw [← List.length_pos_iff, hvs]
      exact Nat.succ_pos d
    have hlimit : passLimit = 15 + 1 := rfl
    rw [trend_ofRange offset scale (by rw [usedDegree_exact, ← hd, hbasis]) hnonempty, hlimit, hrefine]
    rfl
  · rw [← List.length_map, hvectors, hvs, hd]
  · rw [hsettled.conserves, fitted_unweighted, zero_add]
  · rw [hvectors, ← vector_unweighted vs]
    exact hsettled.orthogonal

/-- A fit of some samples is a polynomial whose degree is as asked for, as far as there are samples,
and whose residuals are orthogonal to all such polynomials. -/
theorem fit?_normal (hne : xs ≠ []) (hlength : xs.length = ys.length) (degree : Nat) :
    ∃ (trend : Trend ℚ) (p : ℚ[X]), Trend.fit? xs ys degree = some trend ∧
      trend.degree = min degree (xs.toFinset.card - 1) ∧
      p.natDegree ≤ min degree (xs.toFinset.card - 1) ∧ (∀ x, trend.eval x = p.eval x) ∧
      ∀ q : ℚ[X], q.natDegree ≤ min degree (xs.toFinset.card - 1) →
        pairing (residuals xs ys fun x => p.eval x) (xs.map fun x => q.eval x) = 0 := by
  obtain ⟨least, greatest, hfit⟩ := fit?_eq_ofRange hne hlength degree
  have hne₀ := halfWidth_ne_zero least greatest
  obtain ⟨ws, left, htrend, hlen, hbasis, hleft, hconserves, horthogonal⟩ :=
    exists_weights (midpoint least greatest) hne₀ hne hlength degree
  generalize midpoint least greatest = offset at *
  generalize halfWidth least greatest = scale at *
  obtain ⟨p, hp⟩ : ∃ p, p = weightedSum ws 0 1 := ⟨_, rfl⟩
  refine ⟨⟨ws.map termOf, offset, scale⟩, p.comp (C scale⁻¹ * X + C (-offset / scale)), ?_, ?_, ?_,
    fun x => ?_, fun q hq => ?_⟩
  · rw [hfit, htrend]
  · rw [Trend.degree, List.length_map, hlen, Nat.add_sub_cancel]
  · have hdegree := degree_weightedSum_lt hbasis
    rw [← hp, hlen, Nat.zero_add] at hdegree
    exact (natDegree_comp_linear_le p _ _).trans (natDegree_le_iff_degree_lt.mpr hdegree)
  · rw [eval_exact, eval_comp_mapped, hp]
  · have hresiduals := residuals_weightedSum hbasis hlength hleft hconserves
    simp only [eval_comp_mapped, hp]
    rw [hresiduals, ← map_eval_mapped q xs offset hne₀, ← moment_apply]
    refine hbasis.moment_eq_zero (fun r hr => ?_) horthogonal _ ?_
    · rw [eq_zero_of_degree_lt hr, map_zero]
    · rw [List.length_map, hlen, Nat.zero_add]
      exact natDegree_le_iff_degree_lt.mp ((natDegree_comp_linear_le q _ _).trans hq)

end

end SweepReport
