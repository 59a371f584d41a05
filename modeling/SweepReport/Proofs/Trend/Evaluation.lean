import SweepReport.Proofs.Trend.Passes

/-! Trends evaluated at the samples they were fitted to, in any arithmetic. The recurrence that
evaluates a trend goes through the same operations as the one that built the basis, so at a sample
it meets the very values that the weights were found for. -/
namespace SweepReport
open Scalar (zero one)
variable {α : Type} [Scalar α]

/-- The values of the polynomials from `cur` on, which the terms' weights are multiplied with. -/
def recurrenceValues (t : α) : List (Term α) → α → α → List α
  | [], _, _ => []
  | τ :: τs, prev, cur => cur :: recurrenceValues t τs cur (recur t τ.alpha τ.beta prev cur)

def Trend.basisValues (p : Trend α) (x : α) : List α :=
  recurrenceValues (p.mapped x) p.terms zero one

def weigh (sum : α) (terms : List (Term α)) (values : List α) : α :=
  (List.zipWith (fun τ v => τ.weight * v) terms values).foldl (· + ·) sum

theorem evalTerms_eq_weigh (t : α) (terms : List (Term α)) (prev cur sum : α) :
    Trend.evalTerms t terms prev cur sum =
      weigh sum terms (recurrenceValues t terms prev cur) := by
  induction terms generalizing prev cur sum with
  | nil => rfl
  | cons τ τs ih => exact ih _ _ _

theorem eval_eq_weigh (p : Trend α) (x : α) :
    p.eval x = weigh zero p.terms (p.basisValues x) :=
  evalTerms_eq_weigh _ _ _ _ _

section
variable {ts prev cur : List α} {i : Nat} {t q c : α}

theorem nextValues_at (alpha beta : α) (ht : ts[i]? = some t) (hprev : prev[i]? = some q)
    (hcur : cur[i]? = some c) :
    (nextValues alpha beta ts cur prev)[i]? = some (recur t alpha beta q c) := by
  induction ts generalizing i prev cur with
  | nil => contradiction
  | cons t' ts ih =>
    cases prev with
    | nil => contradiction
    | cons q' prev =>
      cases cur with
      | nil => contradiction
      | cons c' cur =>
        cases i with
        | zero =>
          cases ht
          cases hprev
          cases hcur
          rfl
        | succ i => exact ih ht hprev hcur

/-- The recurrence at a sample goes through the values there of the vectors that it built. -/
theorem recurrenceValues_basisFrom {count k : Nat} {prevNorm : α} {ws : List (Weighted α)}
    (hws : ws.map Weighted.vector = (basisFrom ts count k prev cur prevNorm).1)
    (ht : ts[i]? = some t) (hprev : prev[i]? = some q) (hcur : cur[i]? = some c) :
    (recurrenceValues t (ws.map termOf) q c).map some = ws.map (·.vector.values[i]?) := by
  induction count generalizing k prev cur prevNorm ws q c with
  | zero =>
    rw [basisFrom, List.map_eq_nil_iff] at hws
    subst hws
    rfl
  | succ count ih =>
    rw [basisFrom] at hws
    dsimp only at hws
    split at hws
    · obtain ⟨w, ws, rfl, hw, hrest⟩ := List.map_eq_cons_iff.mp hws
      have hnext := nextValues_at w.vector.alpha w.vector.beta ht hprev hcur
      rw [hw] at hnext
      have hvalues := ih hrest hcur hnext
      rw [List.map_cons, List.map_cons, recurrenceValues, List.map_cons, termOf, hw, hcur]
      exact congrArg (List.cons _) hvalues
    · rw [List.map_eq_nil_iff] at hws
      subst hws
      rfl

end

section
variable {xs ys : List α} {degree : Nat} {trend : Trend α}

/-- The weights of a trend, with the vectors that they were found for. -/
structure FoundBy (xs ys : List α) (degree : Nat) (trend : Trend α) (ws : List (Weighted α)) :
    Prop where
  vectors : ws.map Weighted.vector = (basis (xs.map trend.mapped) (usedDegree xs degree)).1
  passes : ∃ count, refine (toleranceFor ys) passLimit 0
    (unweighted (basis (xs.map trend.mapped) (usedDegree xs degree)).1) ys = some (ws, count)
  terms : trend.terms = ws.map termOf

theorem exists_foundBy (h : Trend.fit? xs ys degree = some trend) :
    ∃ ws, FoundBy xs ys degree trend ws := by
  rw [Trend.fit?, Fit.ofSamples] at h
  split at h
  · contradiction
  split at h
  · contradiction
  rename_i least greatest _
  generalize midpoint least greatest = offset at h
  generalize halfWidth least greatest = scale at h
  by_cases hempty : (basis (xs.map fun x => (x - offset) / scale) (usedDegree xs degree)).1 = []
  · rw [Fit.ofRange] at h
    dsimp only at h
    rw [if_pos (List.isEmpty_iff.mpr hempty)] at h
    contradiction
  · rw [trend_ofRange offset scale rfl hempty] at h
    obtain ⟨⟨ws, count⟩, hrefine, rfl⟩ := Option.map_eq_some_iff.mp h
    exact ⟨ws, (vector_refine hrefine).trans (vector_unweighted _), ⟨count, hrefine⟩, rfl⟩

/-- At a sample a trend's basis polynomials have the values of the vectors that the fit projected
onto, and the trend is the sum of these values by their weights. -/
theorem eval_meets_basis (h : Trend.fit? xs ys degree = some trend) :
    ∃ ws, FoundBy xs ys degree trend ws ∧ ∀ (i : Nat) (x : α), xs[i]? = some x →
      (trend.basisValues x).map some = ws.map (·.vector.values[i]?) ∧
      trend.eval x = weigh zero trend.terms (trend.basisValues x) := by
  obtain ⟨ws, hfound⟩ := exists_foundBy h
  refine ⟨ws, hfound, fun i x hx => ⟨?_, eval_eq_weigh trend x⟩⟩
  have ht : (xs.map trend.mapped)[i]? = some (trend.mapped x) := by
    rw [List.getElem?_map, hx]
    rfl
  have hconstant (c : α) : ((xs.map trend.mapped).map fun _ => c)[i]? = some c := by
    rw [List.getElem?_map, ht]
    rfl
  rw [Trend.basisValues, hfound.terms]
  exact recurrenceValues_basisFrom hfound.vectors ht (hconstant zero) (hconstant one)

end

theorem middle_sample_meets_basis :
    ∃ (trend : Trend Float) (ws : List (Weighted Float)),
      Trend.fit? [8, 16, 32] [1, 4, 2] 10 = some trend ∧
      FoundBy [8, 16, 32] [1, 4, 2] 10 trend ws ∧
      (trend.basisValues 16).map some = ws.map (·.vector.values[1]?) := by
  have hsome : (Trend.fit? ([8, 16, 32] : List Float) [1, 4, 2] 10).isSome = true := by
    decide +kernel
  obtain ⟨trend, hfit⟩ := Option.isSome_iff_exists.mp hsome
  obtain ⟨ws, hfound, hvalues⟩ := eval_meets_basis hfit
  exact ⟨trend, ws, hfit, hfound, (hvalues 1 16 rfl).1⟩

end SweepReport
