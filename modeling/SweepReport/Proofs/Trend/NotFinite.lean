import SweepReport.Proofs.Trend.Lost
import SweepReport.Sweep

/-! Fits of samples that are not all finite. Ordinates whose sum is infinite have no trend; those
whose sum is no number have one without values. An abscissa that is not finite leaves only the first
vector of the basis, so that the trend is the same everywhere. -/
namespace SweepReport
open Double
open Float.Model.UnpackedFloat (Sign)
open Scalar (dot zero one)

section
variable {ts xs ys : List Float}

/-- What the passes of a fit start from: the weighted vector of ones before the others of the basis. -/
structure Begins (xs ys : List Float) (degree : Nat) (offset scale : Float) (ts : List Float)
    (rest : List (BasisVector Float)) (w : Weighted Float) : Prop where
  mapped : ts = xs.map fun x => (x - offset) / scale
  ne_nil : ts ≠ []
  length : ts.length = ys.length
  basis : (basis ts (usedDegree xs degree)).1 = unitVector ts :: rest
  vector : w.vector = unitVector ts
  peak : w.peak = one
  weight : w.weight = zero
  sized : Sized ys.length ((w :: unweighted rest).map Weighted.vector)
  fit : Trend.fit? xs ys degree =
    (refine (toleranceFor ys) (15 + 1) 0 (w :: unweighted rest) ys).map
      fun q => ⟨q.1.map termOf, offset, scale⟩

theorem exists_begins (hne : xs ≠ []) (hlength : xs.length = ys.length) (degree : Nat) :
    ∃ offset scale ts rest w, Begins xs ys degree offset scale ts rest w := by
  obtain ⟨least, greatest, hfit⟩ := fit?_eq_ofRange hne hlength degree
  generalize midpoint least greatest = offset at hfit
  generalize halfWidth least greatest = scale at hfit
  obtain ⟨ts, hts⟩ : ∃ ts, ts = xs.map fun x => (x - offset) / scale := ⟨_, rfl⟩
  have htsne : ts ≠ [] := fun h => hne (List.map_eq_nil_iff.mp (hts ▸ h))
  have htslength : ts.length = ys.length := by rw [hts, List.length_map, hlength]
  have hsized : Sized ts.length (basis ts (usedDegree xs degree)).1 :=
    sized_basisFrom (List.length_map _) (List.length_map _) _ _ _
  have hbasis := basis_eq_cons (isUsable_norm htsne) (usedDegree xs degree)
  generalize basisFrom ts _ _ _ _ _ = rest at hbasis
  have hws : unweighted (unitVector ts :: rest.1) =
      ⟨unitVector ts, one, zero⟩ :: unweighted rest.1 := by
    rw [unweighted_cons, peak_unitVector htsne]
  have hmapped : (basis (xs.map fun x => (x - offset) / scale) (usedDegree xs degree)).1 =
      unitVector ts :: rest.1 := by rw [← hts, hbasis]
  refine ⟨offset, scale, ts, rest.1, ⟨unitVector ts, one, zero⟩, hts, htsne, htslength, hbasis,
    rfl, rfl, rfl, ?_, ?_⟩
  · rwa [← hws, vector_unweighted, ← hbasis, ← htslength]
  · rw [hfit, trend_ofRange offset scale hmapped (List.cons_ne_nil _ _), hws, passLimit]

theorem isNaN_evalTerms (t : Float) (terms : List (Term Float)) (prev cur : Float) {sum : Float}
    (h : sum.isNaN) : (Trend.evalTerms t terms prev cur sum).isNaN := by
  induction terms generalizing prev cur sum with
  | nil => exact h
  | cons term terms ih => exact ih _ _ (isNaN_add (.inl h))

theorem isNaN_eval {w : Weighted Float} (h : w.weight.isNaN) (ws : List (Weighted Float))
    (offset scale x : Float) : (Trend.eval ⟨(w :: ws).map termOf, offset, scale⟩ x).isNaN := by
  rw [Trend.eval, List.map_cons, Trend.evalTerms, termOf]
  exact isNaN_evalTerms _ _ _ _ (isNaN_add (.inr (isNaN_mul (.inl h))))

theorem fit?_of_isNaN (hne : xs ≠ []) (hlength : xs.length = ys.length)
    (hsum : (Scalar.sum ys).isNaN) (degree : Nat) :
    ∃ trend, Trend.fit? xs ys degree = some trend ∧ ∀ x, (trend.eval x).isNaN := by
  obtain ⟨offset, scale, ts, rest, w, h⟩ := exists_begins hne hlength degree
  have hys : ys ≠ [] := fun h => hne (List.length_eq_zero_iff.mp (by rw [hlength, h]; rfl))
  have hc : (component ys w.vector).isNaN := by
    rw [h.vector, component_unitVector h.length]
    exact isNaN_div (.inl hsum)
  obtain ⟨w', ws, count, hrefine, hweight⟩ := refine_of_isNaN hc hys h.sized (toleranceFor ys) 15 0
  refine ⟨⟨(w' :: ws).map termOf, offset, scale⟩, ?_, isNaN_eval hweight ws offset scale⟩
  rw [h.fit, hrefine]
  rfl

theorem fit?_of_infinite (hne : xs ≠ []) (hlength : xs.length = ys.length) {s : Sign}
    (hsum : parts (Scalar.sum ys) = .infinity s) (degree : Nat) :
    Trend.fit? xs ys degree = none := by
  obtain ⟨offset, scale, ts, rest, w, h⟩ := exists_begins hne hlength degree
  obtain ⟨t, hc⟩ := infinite_div hsum (isCount_norm h.ne_nil).isFinite
  rw [← component_unitVector h.length, ← h.vector] at hc
  rw [h.fit, refine_of_infinite hc h.peak]
  rfl

theorem alpha_of_not_finite (ht : ∃ t ∈ ts, ¬ t.isFinite) : ¬ (unitVector ts).alpha.isFinite := by
  obtain ⟨t, hmem, hinfinite⟩ := ht
  intro hfinite
  have hsum : (Scalar.sum (ts.map fun t => t * one * one)).isFinite := by
    have hdivided := (isFinite_of_div hfinite).1
    rwa [List.zipWith_map_right, List.zipWith_self] at hdivided
  have hterm := isFinite_of_sum hsum _ (List.mem_map_of_mem hmem)
  exact hinfinite (isFinite_of_mul (isFinite_of_mul hterm).1).1

/-- With such abscissas there is no second vector. -/
theorem basis_of_not_finite (ht : ∃ t ∈ ts, ¬ t.isFinite) (degree : Nat) :
    (basis ts degree).1 = [unitVector ts] := by
  have hne : ts ≠ [] := List.ne_nil_of_mem ht.choose_spec.1
  have halpha := alpha_of_not_finite ht
  obtain ⟨alpha, halphaEq⟩ : ∃ alpha, alpha = (unitVector ts).alpha := ⟨_, rfl⟩
  have hunusable : isUsable (dot (ts.map fun t => recur t alpha zero zero one)
      (ts.map fun t => recur t alpha zero zero one)) = false := by
    rw [Bool.eq_false_iff]
    intro h
    obtain ⟨t, hmem, -⟩ := ht
    have hsum := (Bool.and_eq_true_iff.mp h).1
    rw [dot, List.zipWith_self, List.map_map] at hsum
    have hvalue := (isFinite_of_mul (isFinite_of_sum hsum _ (List.mem_map_of_mem hmem))).1
    rw [halphaEq] at hvalue
    exact halpha (isFinite_of_sub (isFinite_of_mul (isFinite_of_sub hvalue).1).1).2
  have hnext : nextValues alpha zero ts (unitVector ts).values (ts.map fun _ => zero) =
      ts.map fun t => recur t alpha zero zero one := nextValues_map alpha zero _ _ ts
  rw [basis_eq_cons (isUsable_norm hne), ← halphaEq, hnext]
  cases degree with
  | zero => rfl
  | succ degree =>
    rw [basisFrom]
    simp only [hunusable, Bool.false_eq_true, if_false]

/-- What a fit of degree zero starts with, but for the recurrence, which it does not use. -/
def flatStart (n : Nat) : Weighted Float :=
  ⟨⟨List.replicate n one, dot (List.replicate n one) (List.replicate n one), zero, zero⟩, one, zero⟩

/-- A trend with one weight does not depend on the abscissa. -/
def level (c : Float) (_ : Float) : Float := zero + c * one

/-- The vector without its recurrence. -/
def plain (w : Weighted Float) : Weighted Float :=
  ⟨⟨w.vector.values, w.vector.norm, zero, zero⟩, w.peak, w.weight⟩

theorem eval_of_flat (hne : xs ≠ []) (hlength : xs.length = ys.length) (degree : Nat)
    (hflat : ∀ offset scale,
      (basis (xs.map fun x => (x - offset) / scale) (usedDegree xs degree)).1 =
        [unitVector (xs.map fun x => (x - offset) / scale)]) :
    (Trend.fit? xs ys degree).map Trend.eval =
      (refine (toleranceFor ys) (15 + 1) 0 [flatStart ys.length] ys).map
        fun q => level (q.1.headD (flatStart ys.length)).weight := by
  obtain ⟨offset, scale, ts, rest, w, h⟩ := exists_begins hne hlength degree
  obtain ⟨-, rfl⟩ := List.cons.inj (h.basis.symm.trans (h.mapped ▸ hflat offset scale))
  have hplain : flatStart ys.length = plain w := by
    rw [plain, h.vector, h.peak, h.weight, flatStart, ← h.length, ← values_unitVector]
    rfl
  have hstart : [plain w] = [w].map plain := rfl
  rw [hplain, hstart, refine_map (fun _ _ => rfl), h.fit, Option.map_map, Option.map_map]
  refine Option.map_congr fun q hq => ?_
  obtain ⟨ws, count⟩ := q
  obtain ⟨w', rfl, -⟩ := List.map_eq_singleton_iff.mp (vector_refine hq)
  rfl

theorem basis_zero (hne : ts ≠ []) : (basis ts 0).1 = [unitVector ts] := by
  rw [basis_eq_cons (isUsable_norm hne)]
  rfl

theorem flat_of_not_finite (hx : ∃ x ∈ xs, ¬ x.isFinite) (degree : Nat) (offset scale : Float) :
    (basis (xs.map fun x => (x - offset) / scale) degree).1 =
      [unitVector (xs.map fun x => (x - offset) / scale)] := by
  obtain ⟨x, hmem, hinfinite⟩ := hx
  refine basis_of_not_finite ⟨_, List.mem_map_of_mem hmem, fun h => hinfinite ?_⟩ degree
  exact (isFinite_of_sub (isFinite_of_div h).1).1

/-- A fit whose abscissas are not all finite is the one of degree zero, whatever the abscissas are,
and has one value everywhere. -/
theorem eval_of_not_finite (hx : ∃ x ∈ xs, ¬ x.isFinite) (hlength : xs.length = ys.length)
    (degree : Nat) :
    (∀ zs : List Float, zs.length = ys.length →
      (Trend.fit? xs ys degree).map Trend.eval = (Trend.fit? zs ys 0).map Trend.eval) ∧
      ∀ trend, Trend.fit? xs ys degree = some trend → ∀ x z, trend.eval x = trend.eval z := by
  have hne : xs ≠ [] := List.ne_nil_of_mem hx.choose_spec.1
  have hxs := eval_of_flat hne hlength degree (flat_of_not_finite hx _)
  refine ⟨fun zs hzs => ?_, fun trend hfit x z => ?_⟩
  · have hzne : zs ≠ [] := by
      rw [← List.length_pos_iff, hzs, ← hlength]
      exact List.length_pos_iff.mpr hne
    rw [hxs, eval_of_flat hzne hzs]
    intro offset scale
    rw [usedDegree, Nat.zero_min]
    exact basis_zero fun h => hzne (List.map_eq_nil_iff.mp h)
  · rw [hfit] at hxs
    obtain ⟨q, -, heval⟩ := Option.map_eq_some_iff.mp hxs.symm
    rw [← heval]
    rfl

/-- With ordinates that are not all finite there is no trend, unless their sum is no number; then no
value of the trend is. -/
theorem fit?_of_ordinate_not_finite (hne : xs ≠ []) (hlength : xs.length = ys.length)
    (hy : ∃ y ∈ ys, ¬ y.isFinite) (degree : Nat) :
    (Trend.fit? xs ys degree = none ↔ (Scalar.sum ys).isNaN = false) ∧
      ∀ trend, Trend.fit? xs ys degree = some trend → ∀ x, (trend.eval x).isNaN := by
  cases hnan : (Scalar.sum ys).isNaN with
  | true =>
    obtain ⟨trend, hfit, heval⟩ := fit?_of_isNaN hne hlength hnan degree
    rw [hfit]
    refine ⟨iff_of_false nofun nofun, ?_⟩
    rintro _ ⟨⟩
    exact heval
  | false =>
    obtain ⟨y, hmem, hinfinite⟩ := hy
    obtain ⟨s, hsum⟩ := infinite_iff.mp ⟨fun h => hinfinite (isFinite_of_sum h y hmem), hnan⟩
    rw [fit?_of_infinite hne hlength hsum]
    exact ⟨iff_of_true rfl rfl, nofun⟩

end

theorem isNaN_of_mem_sample? {trend : Trend Float} (h : ∀ x, (trend.eval x).isNaN)
    {start stop step : Float} {curve : Curve Float} (hcurve : trend.sample? start stop step = some curve) :
    ∀ p ∈ curve, p.2.isNaN := by
  rw [Trend.sample?] at hcurve
  intro p hp
  split at hcurve
  · obtain ⟨n, -, rfl⟩ := Option.map_eq_some_iff.mp hcurve
    obtain ⟨i, -, rfl⟩ := List.mem_map.mp hp
    exact h _
  · cases hcurve
    exact absurd hp List.not_mem_nil

/-- A sweep with a metric that is not finite shows no trend line, or one that has no values. -/
theorem curve_of_not_finite {s : Sweep Float} (hy : ∃ y ∈ s.ys, ¬ y.isFinite) (degree : Nat)
    (step : Float) :
    if (Scalar.sum s.ys).isNaN then
      ∀ f, s.fitted? degree step = some f → ∀ p ∈ f.curve, p.2.isNaN
    else ∃ f, s.fitted? degree step = some f ∧ f.curve = [] := by
  have hlength : s.xs.length = s.ys.length := by
    rw [Sweep.xs, Sweep.ys, List.length_map, List.length_map]
  have hne : s.xs ≠ [] := by
    obtain ⟨y, hmem, -⟩ := hy
    rw [← List.length_pos_iff, hlength]
    exact List.length_pos_of_mem hmem
  obtain ⟨hnone, hnan⟩ := fit?_of_ordinate_not_finite hne hlength hy degree
  split
  · intro f hf
    obtain ⟨curve, hcurve, rfl⟩ := Option.map_eq_some_iff.mp hf
    split at hcurve
    · rename_i hfit _ _
      exact isNaN_of_mem_sample? (hnan _ hfit) hcurve
    · cases hcurve
      simp
  · have hfit : (Fit.ofSamples s.xs s.ys degree).trend = none :=
      hnone.mpr (Bool.eq_false_iff.mpr ‹_›)
    rw [Sweep.fitted?, hfit]
    exact ⟨_, rfl, rfl⟩

/-- What becomes of samples that are not all finite. If it is an ordinate that is not, there is no
trend, unless the sum of the ordinates is no number; then there is one, and no value of it is a
number. If it is an abscissa, the trend is the same everywhere, and the one of degree zero over any
abscissas. A sweep with a metric that is not finite has no trend line or, if the sum of its metrics
is no number, one without a value. -/
theorem fit?_not_finite (xs ys : List Float) (hne : xs ≠ []) (hlength : xs.length = ys.length)
    (degree : Nat) :
    ((∃ y ∈ ys, ¬ y.isFinite) →
      (Trend.fit? xs ys degree = none ↔ (Scalar.sum ys).isNaN = false) ∧
      ∀ trend, Trend.fit? xs ys degree = some trend → ∀ x, (trend.eval x).isNaN) ∧
    ((∃ x ∈ xs, ¬ x.isFinite) →
      (∀ zs : List Float, zs.length = ys.length →
        (Trend.fit? xs ys degree).map Trend.eval = (Trend.fit? zs ys 0).map Trend.eval) ∧
      ∀ trend, Trend.fit? xs ys degree = some trend → ∀ x z, trend.eval x = trend.eval z) ∧
    ∀ (s : Sweep Float) (step : Float), (∃ y ∈ s.ys, ¬ y.isFinite) →
      if (Scalar.sum s.ys).isNaN then
        ∀ f, s.fitted? degree step = some f → ∀ p ∈ f.curve, p.2.isNaN
      else ∃ f, s.fitted? degree step = some f ∧ f.curve = [] :=
  ⟨fun hy => fit?_of_ordinate_not_finite hne hlength hy degree,
    fun hx => eval_of_not_finite hx hlength degree,
    fun _ step hy => curve_of_not_finite hy degree step⟩

/-- Two samples, the abscissa of the first infinite and its ordinate no number. -/
theorem fit?_first_sample_not_finite :
    (∃ trend, Trend.fit? [Float.inf, 8] [Float.nan, 1] 10 = some trend ∧ (∀ x, (trend.eval x).isNaN) ∧
      ∀ x z, trend.eval x = trend.eval z) ∧
    ∃ f, (⟨⟨"1"⟩, [(8, Float.inf), (16, 1)]⟩ : Sweep Float).fitted? 10 4 = some f ∧ f.curve = [] := by
  have hlost : (Scalar.sum [Float.nan, 1]).isNaN = true := by decide +kernel
  have hinfinite : (Scalar.sum [Float.inf, 1]).isNaN = false := by decide +kernel
  have hy : ∃ y ∈ [Float.nan, 1], ¬ y.isFinite := by decide +kernel
  have hx : ∃ x ∈ [Float.inf, 8], ¬ x.isFinite := by decide +kernel
  have hmetric : ∃ y ∈ (⟨⟨"1"⟩, [(8, Float.inf), (16, 1)]⟩ : Sweep Float).ys, ¬ y.isFinite := by
    decide +kernel
  obtain ⟨hordinate, habscissa, hsweep⟩ :=
    fit?_not_finite [Float.inf, 8] [Float.nan, 1] (List.cons_ne_nil _ _) (by simp) 10
  obtain ⟨hnone, hnan⟩ := hordinate hy
  obtain ⟨-, hsame⟩ := habscissa hx
  have hsome : Trend.fit? [Float.inf, 8] [Float.nan, 1] 10 ≠ none := fun h =>
    Bool.false_ne_true ((hnone.mp h).symm.trans hlost)
  obtain ⟨trend, hfit⟩ := Option.ne_none_iff_exists'.mp hsome
  have hcurve := hsweep _ 4 hmetric
  rw [Sweep.ys] at hcurve
  simp only [List.map_cons, List.map_nil, hinfinite, Bool.false_eq_true, if_false] at hcurve
  exact ⟨⟨trend, hfit, hnan trend hfit, hsame trend hfit⟩, hcurve⟩

/-- Neither an ordinate that is no number nor an infinite abscissa keeps samples from having a
trend. -/
theorem fit?_accepts_not_finite :
    Float.nan.isFinite = false ∧ Float.inf.isFinite = false ∧
    (Trend.fit? [8, 16] [Float.nan, 1] 10).isSome = true ∧
    (Trend.fit? [Float.inf, 16] [1, 1] 10).isSome = true ∧
    (((⟨⟨"1"⟩, [(8, Float.nan), (16, 1)]⟩ : Sweep Float).fitted? 10 4).any fun f =>
      f.curve.any fun p => p.2.isNaN) = true := by
  decide +kernel

end SweepReport
