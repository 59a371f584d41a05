import SweepReport.Proofs.Trend.Normal
import SweepReport.Proofs.Trend.Range

/-! The basis that a fit uses in exact arithmetic. It has a vector for every degree up to the one that
the fit is tried with: the recurrence does not come to a vanishing polynomial before. -/
namespace SweepReport
open Polynomial
open Scalar (dot)

section
variable [Precision]

/-- Vectors of which the one at place `k` holds the values at the samples of one monic polynomial of
degree `k`, orthogonal to each other and none of them zero. -/
structure MonicBasis (ts : List ℚ) (vs : List (BasisVector ℚ)) : Prop where
  monic : ∀ (k : Nat) (v : BasisVector ℚ), vs[k]? = some v →
    ∃ p : ℚ[X], p.Monic ∧ p.natDegree = k ∧ v.values = ts.map fun t => p.eval t
  apart : ∀ (i j : Nat) (u v : BasisVector ℚ), i ≠ j → vs[i]? = some u → vs[j]? = some v →
    dot u.values v.values = 0
  norm : ∀ v ∈ vs, v.norm = dot v.values v.values ∧ 0 < v.norm

theorem IsBasis.monicBasis {ts : List ℚ} {vs : List (BasisVector ℚ)} (h : IsBasis ts 0 0 1 vs) :
    MonicBasis ts vs where
  monic k v hv := by
    obtain ⟨p, hp, hvalues, -⟩ := h.orthogonal_at hv
    exact ⟨p, hp.monic, hp.natDegree.trans (Nat.zero_add k), hvalues⟩
  apart i j u v hij hu hv := by
    -- The earlier one has the lower degree, and the later one is orthogonal to all lower degrees.
    wlog hlt : i < j generalizing i j u v with hsymm
    · rw [dot_exact, pairing_comm, ← dot_exact]
      exact hsymm j i v u hij.symm hv hu (by omega)
    obtain ⟨p, hp, hp', -⟩ := h.orthogonal_at hu
    obtain ⟨q, hq, hq', -⟩ := h.orthogonal_at hv
    rw [dot_exact, pairing_comm, hp', hq', pairing_values]
    refine hq.apart p ?_
    rw [degree_eq_natDegree hp.monic.ne_zero, hp.natDegree]
    exact_mod_cast Nat.add_lt_add_left hlt 0
  norm v hv := by
    obtain ⟨j, p, -, -, hvalues, hnorm, hpos⟩ := h.exists_orthogonal v hv
    exact ⟨by rw [dot_exact, hvalues, pairing_values, hnorm], hpos⟩

/-- A fit only says of its basis that it vanishes where the recurrence stopped early. -/
theorem vanished_notMem_notes {xs ys : List ℚ} {degree : Nat} {offset scale : ℚ}
    (h : (basis (xs.map fun x => (x - offset) / scale) (usedDegree xs degree)).2 = none) (k : Nat) :
    FitNote.vanished k ∉ (Fit.ofRange offset scale xs ys degree).notes := by
  rw [Fit.ofRange]
  dsimp only
  rw [h]
  split
  · simp
  · split <;> simp

/-- In exact arithmetic the samples are mapped to `[-1, 1]`, and the recurrence makes a vector for
every degree up to the one that the fit is tried with: the values of monic polynomials of ascending
degree, orthogonal to each other, with positive sums of squares. No fit of these samples notes that
its basis vanishes. -/
theorem basis_never_vanishes (xs : List ℚ) (hne : xs ≠ []) (degree : Nat) :
    ∃ (least greatest : ℚ) (ts : List ℚ) (vs : List (BasisVector ℚ)),
      range? xs = some (least, greatest) ∧
      (ts = xs.map fun x => (x - midpoint least greatest) / halfWidth least greatest) ∧
      (∀ t ∈ ts, -1 ≤ t ∧ t ≤ 1) ∧
      basis ts (usedDegree xs degree) = (vs, none) ∧
      vs.length = min degree (xs.toFinset.card - 1) + 1 ∧
      MonicBasis ts vs ∧
      ∀ (ys : List ℚ) (k : Nat), FitNote.vanished k ∉ (Fit.ofSamples xs ys degree).notes := by
  obtain ⟨least, greatest, hrange⟩ := exists_range hne
  obtain ⟨ts, hts⟩ :
    ∃ ts, ts = xs.map fun x => (x - midpoint least greatest) / halfWidth least greatest := ⟨_, rfl⟩
  have hcard : ts.toFinset.card = xs.toFinset.card := by
    rw [hts, card_mapped xs _ (halfWidth_ne_zero least greatest)]
  have hpos : 0 < xs.toFinset.card :=
    Finset.card_pos.mpr ((List.toFinset_nonempty_iff xs).mpr hne)
  obtain ⟨vs, hbasis, hlength, hvs⟩ :=
    basis_isBasis (show usedDegree xs degree < ts.toFinset.card by rw [usedDegree_exact]; omega)
  refine ⟨least, greatest, ts, vs, hrange, hts, fun t ht => ?_, hbasis, ?_, hvs.monicBasis,
    fun ys k => ?_⟩
  · obtain ⟨x, hx, rfl⟩ := List.mem_map.mp (hts ▸ ht)
    obtain ⟨hleast, hgreatest⟩ := (range?_spans hrange).holds x hx
    exact mapped_mem_unit hleast hgreatest
  · rw [hlength, usedDegree_exact]
  · rw [Fit.ofSamples, hrange]
    split
    · simp
    · exact vanished_notMem_notes (by rw [← hts, hbasis]) k

end

/-- Three different abscissas, one of them twice and none in order, and a degree beyond them. -/
theorem basis_of_crowded_samples :
    letI : Precision := ⟨1 / 2 ^ 52⟩
    ∃ (ts : List ℚ) (vs : List (BasisVector ℚ)),
      basis ts (usedDegree ([16, 2, 16, 4] : List ℚ) 10) = (vs, none) ∧ vs.length = 3 ∧ MonicBasis ts vs := by
  let _ : Precision := ⟨1 / 2 ^ 52⟩
  obtain ⟨-, -, ts, vs, -, -, -, hbasis, hlength, hvs, -⟩ :=
    basis_never_vanishes [16, 2, 16, 4] (by simp) 10
  have hcard : ([16, 2, 16, 4] : List ℚ).toFinset.card = 3 := by decide +kernel
  exact ⟨ts, vs, hbasis, by rw [hlength, hcard]; rfl, hvs⟩

end SweepReport
