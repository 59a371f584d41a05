import SweepReport.Proofs.Trend.Passes

/-! The basis of a fit in columns: one for the values, one for the sums of squares, and one for each of
the two numbers of the recurrence. Lists that belong together are walked in step, which is checked here
at each walk, and a check that fails leaves nothing. Whatever the numbers are, none fails: the columns
hold the parts of the basis vectors. -/
namespace SweepReport
open Scalar (sum zero)

/-- Two lists walked in step, unless one ends before the other. -/
def inStep? {α β γ : Type} (f : α → β → γ) (xs : List α) (ys : List β) : Option (List γ) :=
  if xs.length = ys.length then some (List.zipWith f xs ys) else none

theorem inStep?_eq_some {α β γ : Type} {xs : List α} {ys : List β} (h : xs.length = ys.length)
    (f : α → β → γ) : inStep? f xs ys = some (List.zipWith f xs ys) := if_pos h

variable {α : Type}

/-- What the recurrence puts down, degree by degree. -/
structure Columns (α : Type) where
  basis : List (List α)
  norms : List α
  alphas : List α
  betas : List α

namespace Columns

def empty : Columns α := ⟨[], [], [], []⟩

def push (c : Columns α) (v : BasisVector α) : Columns α :=
  ⟨c.basis ++ [v.values], c.norms ++ [v.norm], c.alphas ++ [v.alpha], c.betas ++ [v.beta]⟩

def ofVectors (vs : List (BasisVector α)) : Columns α :=
  ⟨vs.map (·.values), vs.map (·.norm), vs.map (·.alpha), vs.map (·.beta)⟩

@[simp] theorem push_ofVectors (vs : List (BasisVector α)) (v : BasisVector α) :
    (ofVectors vs).push v = ofVectors (vs ++ [v]) := by
  simp [push, ofVectors]

end Columns

variable [Scalar α]

def dot? (xs ys : List α) : Option α := (inStep? (· * ·) xs ys).map sum

def alpha? (ts values : List α) (norm : α) : Option α :=
  (inStep? (fun t p => t * p * p) ts values).map fun products => sum products / norm

def nextValues? (alpha beta : α) (ts cur prev : List α) : Option (List α) := do
  let pairs ← inStep? Prod.mk cur prev
  inStep? (fun t p => recur t alpha beta p.2 p.1) ts pairs

/-- The columns with what the recurrence adds to them. -/
def columnsFrom? (ts : List α) : Nat → Nat → List α → List α → α → Columns α → Option (Columns α)
  | 0, _, _, _, _, c => some c
  | count + 1, k, prev, cur, prevNorm, c => do
    let norm ← dot? cur cur
    if isUsable norm then
      let alpha ← alpha? ts cur norm
      let beta := if k = 0 then zero else norm / prevNorm
      let next ← nextValues? alpha beta ts cur prev
      columnsFrom? ts count (k + 1) cur next norm (c.push ⟨cur, norm, alpha, beta⟩)
    else some c

section
variable {ts : List α}

theorem dot?_self (xs : List α) : dot? xs xs = some (Scalar.dot xs xs) := by
  rw [dot?, inStep?_eq_some rfl]
  rfl

theorem alpha?_eq_some {values : List α} (h : values.length = ts.length) (norm : α) :
    alpha? ts values norm = some (alphaOf ts values norm) := by
  rw [alpha?, inStep?_eq_some h.symm]
  rfl

theorem nextValues_eq_zipWith (alpha beta : α) (ts cur prev : List α) :
    nextValues alpha beta ts cur prev =
      List.zipWith (fun t p => recur t alpha beta p.2 p.1) ts (List.zipWith Prod.mk cur prev) := by
  fun_induction nextValues alpha beta ts cur prev with
  | case1 t ts p ps q qs ih => simp [ih]
  | case2 ts cur prev hnone =>
    cases ts with
    | nil => rfl
    | cons t ts =>
      cases cur with
      | nil => simp
      | cons p ps =>
        cases prev with
        | nil => simp
        | cons q qs => exact absurd rfl (hnone t ts p ps q qs rfl rfl)

theorem nextValues?_eq_some {cur prev : List α} (hcur : cur.length = ts.length)
    (hprev : prev.length = ts.length) (alpha beta : α) :
    nextValues? alpha beta ts cur prev = some (nextValues alpha beta ts cur prev) := by
  have hpairs : ts.length = (List.zipWith Prod.mk cur prev).length := by
    rw [List.length_zipWith, hcur, hprev, Nat.min_self]
  rw [nextValues?, inStep?_eq_some (hcur.trans hprev.symm), nextValues_eq_zipWith]
  exact inStep?_eq_some hpairs _

/-- The columns go on with the vectors of the recurrence, wherever it ends. -/
theorem columnsFrom?_eq_some {count k : Nat} {prev cur : List α} (hprev : prev.length = ts.length)
    (hcur : cur.length = ts.length) (prevNorm : α) (vs : List (BasisVector α)) :
    columnsFrom? ts count k prev cur prevNorm (.ofVectors vs) =
      some (.ofVectors (vs ++ (basisFrom ts count k prev cur prevNorm).1)) := by
  induction count generalizing k prev cur prevNorm vs with
  | zero => rw [columnsFrom?, basisFrom, List.append_nil]
  | succ count ih =>
    rw [columnsFrom?, basisFrom, dot?_self]
    dsimp only [Option.bind_eq_bind, Option.bind_some]
    split
    · rw [alpha?_eq_some hcur, Option.bind_some, nextValues?_eq_some hcur hprev, Option.bind_some,
        Columns.push_ofVectors, ih hcur (length_nextValues hcur hprev), List.append_assoc]
      rfl
    · rw [List.append_nil]

end

end SweepReport
