import SweepReport.Proofs.Trend.Normal

/-! Least squares. In exact arithmetic a fit is the polynomial of its degree with the least squared
error, and the only one; with a degree for every abscissa it goes through the means of the samples. -/
namespace SweepReport
open Polynomial

def squaredError (xs ys : List ℚ) (f : ℚ → ℚ) : ℚ :=
  (List.zipWith (fun x y => (y - f x) ^ 2) xs ys).sum

def valuesAt (xs ys : List ℚ) (x : ℚ) : List ℚ :=
  ((xs.zip ys).filter fun p => p.1 = x).map Prod.snd

def mean (ys : List ℚ) : ℚ := ys.sum / ys.length

section
variable {xs ys : List ℚ} {p : ℚ[X]} {d : Nat}

/-- What the squared errors of two polynomials have in common. -/
theorem squaredError_eq (hlength : xs.length = ys.length) (p q : ℚ[X]) :
    squaredError xs ys (fun x => q.eval x) =
      squaredError xs ys (fun x => p.eval x) +
        2 * pairing (residuals xs ys fun x => p.eval x) (xs.map fun x => (p - q).eval x) +
        total xs ((p - q) * (p - q)) := by
  rw [total_apply]
  induction xs generalizing ys with
  | nil => simp [squaredError, residuals]
  | cons x xs ih =>
    obtain ⟨y, ys, rfl⟩ := List.exists_cons_of_length_eq_add_one hlength.symm
    have hrest := ih (Nat.succ.inj hlength)
    simp only [squaredError, residuals, List.zipWith_cons_cons, List.map_cons, List.sum_cons,
      pairing_cons] at hrest ⊢
    rw [hrest]
    simp only [eval_sub, eval_mul]
    ring

/-- Residuals that are orthogonal to all polynomials of the degree leave the least squared error. -/
theorem squaredError_le (hlength : xs.length = ys.length) (hd : d < xs.toFinset.card)
    (hp : p.natDegree ≤ d)
    (hnormal : ∀ q : ℚ[X], q.natDegree ≤ d →
      pairing (residuals xs ys fun x => p.eval x) (xs.map fun x => q.eval x) = 0)
    {q : ℚ[X]} (hq : q.natDegree ≤ d) :
    squaredError xs ys (fun x => p.eval x) ≤ squaredError xs ys (fun x => q.eval x) ∧
      (squaredError xs ys (fun x => q.eval x) = squaredError xs ys (fun x => p.eval x) → q = p) := by
  have hdegree : (p - q).natDegree ≤ d := (natDegree_sub_le p q).trans (max_le hp hq)
  have herror := squaredError_eq hlength p q
  rw [hnormal _ hdegree, mul_zero, add_zero] at herror
  refine ⟨?_, fun heq => ?_⟩
  · have := total_sq_nonneg xs (p - q)
    linarith
  · have hzero : total xs ((p - q) * (p - q)) = 0 := by linarith
    have hsame := eq_zero_of_eval_eq_zero (fun x hx => eval_eq_zero_of_total_sq hzero hx)
      (lt_of_le_of_lt hdegree hd)
    exact (sub_eq_zero.mp hsame).symm

/-- A function that is one at an abscissa and zero at the others picks the samples there. -/
theorem pairing_residuals (hlength : xs.length = ys.length) {f g : ℚ → ℚ} {x : ℚ} (hx : g x = 1)
    (hothers : ∀ z ∈ xs, z ≠ x → g z = 0) :
    pairing (residuals xs ys f) (xs.map g) =
      (valuesAt xs ys x).sum - (valuesAt xs ys x).length * f x := by
  induction xs generalizing ys with
  | nil => simp [residuals, valuesAt]
  | cons z xs ih =>
    obtain ⟨y, ys, rfl⟩ := List.exists_cons_of_length_eq_add_one hlength.symm
    obtain ⟨hz, hothers⟩ := List.forall_mem_cons.mp hothers
    have hrest := ih (Nat.succ.inj hlength) hothers
    rw [residuals] at hrest
    rw [residuals, List.zipWith_cons_cons, List.map_cons, pairing_cons, hrest]
    by_cases hzx : z = x
    · simp [valuesAt, hzx, hx]
      ring
    · simp [valuesAt, hzx, hz hzx]

theorem valuesAt_ne_nil (hlength : xs.length = ys.length) {x : ℚ} (hx : x ∈ xs) :
    valuesAt xs ys x ≠ [] := by
  obtain ⟨i, hi, rfl⟩ := List.getElem_of_mem hx
  have hmem : (xs[i], ys[i]) ∈ (xs.zip ys).filter fun p => p.1 = xs[i] := by
    refine List.mem_filter.mpr ⟨?_, by simp⟩
    rw [← List.getElem_zip (h := by rw [List.length_zip]; omega)]
    exact List.getElem_mem _
  exact fun hnil => List.ne_nil_of_mem hmem (List.map_eq_nil_iff.mp hnil)

theorem eval_eq_mean (hlength : xs.length = ys.length) (hd : xs.toFinset.card ≤ d + 1)
    (hnormal : ∀ q : ℚ[X], q.natDegree ≤ d →
      pairing (residuals xs ys fun x => p.eval x) (xs.map fun x => q.eval x) = 0)
    {x : ℚ} (hx : x ∈ xs) : p.eval x = mean (valuesAt xs ys x) := by
  have hmem : x ∈ xs.toFinset := List.mem_toFinset.mpr hx
  obtain ⟨q, hq⟩ : ∃ q, q = Lagrange.basis xs.toFinset id x := ⟨_, rfl⟩
  have hinjective : Set.InjOn id (xs.toFinset : Set ℚ) := Set.injOn_id _
  have hself : q.eval x = 1 := hq ▸ Lagrange.eval_basis_self hinjective hmem
  have hothers : ∀ z ∈ xs, z ≠ x → q.eval z = 0 := fun z hz hne => by
    rw [hq]
    exact Lagrange.eval_basis_of_ne (v := id) hne.symm (List.mem_toFinset.mpr hz)
  have hdegree : q.natDegree ≤ d := by
    rw [natDegree_le_iff_degree_lt, hq, Lagrange.degree_basis hinjective hmem]
    exact_mod_cast (show xs.toFinset.card - 1 < d + 1 by omega)
  have hzero := hnormal q hdegree
  rw [pairing_residuals hlength hself hothers] at hzero
  have hpos : ((valuesAt xs ys x).length : ℚ) ≠ 0 := by
    simpa using valuesAt_ne_nil hlength hx
  rw [mean, eq_div_iff hpos]
  linarith

end

/-- In exact arithmetic a fit of some samples always succeeds. Its degree is the one asked for, or one
less than the number of different abscissas if that is smaller; it evaluates to a polynomial of that
degree at most; no other such polynomial has as small a squared error; and with a degree for every
abscissa it gives the mean of the samples at each. -/
theorem fit?_leastSquares [Precision] (xs ys : List ℚ) (hne : xs ≠ [])
    (hlength : xs.length = ys.length) (degree : Nat) :
    ∃ trend : Trend ℚ, Trend.fit? xs ys degree = some trend ∧
      trend.degree = min degree (xs.toFinset.card - 1) ∧
      (∃ p : ℚ[X], p.natDegree ≤ trend.degree ∧ ∀ x, trend.eval x = p.eval x) ∧
      (∀ q : ℚ[X], q.natDegree ≤ trend.degree →
        squaredError xs ys trend.eval ≤ squaredError xs ys (fun x => q.eval x) ∧
        (squaredError xs ys (fun x => q.eval x) = squaredError xs ys trend.eval →
          ∀ x, q.eval x = trend.eval x)) ∧
      (xs.toFinset.card - 1 ≤ degree → ∀ x ∈ xs, trend.eval x = mean (valuesAt xs ys x)) := by
  obtain ⟨trend, p, hfit, hdegree, hp, heval, hnormal⟩ := fit?_normal hne hlength degree
  have hcard : 0 < xs.toFinset.card :=
    Finset.card_pos.mpr ((List.toFinset_nonempty_iff xs).mpr hne)
  have hfunction : trend.eval = fun x => p.eval x := funext heval
  rw [← hdegree] at hp hnormal
  refine ⟨trend, hfit, hdegree, ⟨p, hp, heval⟩, fun q hq => ?_, fun hfull x hx => ?_⟩
  · rw [hfunction]
    obtain ⟨hle, hunique⟩ := squaredError_le hlength (by omega) hp hnormal hq
    exact ⟨hle, fun heq x => by rw [hunique heq]⟩
  · rw [heval]
    exact eval_eq_mean hlength (by omega) hnormal hx

/-- Two samples at one abscissa and one at another, asked for degree five: the line through the mean of
the two and the third. -/
theorem fit?_three_samples :
    letI : Precision := ⟨1 / 2 ^ 52⟩
    ∃ trend : Trend ℚ, Trend.fit? [8, 8, 16] [1, 3, 5] 5 = some trend ∧ trend.degree = 1 ∧
      trend.eval 8 = 2 ∧ trend.eval 16 = 5 := by
  let _ : Precision := ⟨1 / 2 ^ 52⟩
  obtain ⟨trend, hfit, hdegree, -, -, hmean⟩ :=
    fit?_leastSquares [8, 8, 16] [1, 3, 5] (by simp) rfl 5
  have hcard : ([8, 8, 16] : List ℚ).toFinset.card = 2 := by decide +kernel
  refine ⟨trend, hfit, by rw [hdegree, hcard]; rfl, ?_, ?_⟩
  · rw [hmean (by rw [hcard]; decide) 8 (by simp)]
    norm_num [valuesAt, mean]
  · rw [hmean (by rw [hcard]; decide) 16 (by simp)]
    norm_num [valuesAt, mean]

end SweepReport
