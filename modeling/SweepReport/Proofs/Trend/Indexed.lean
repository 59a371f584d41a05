import SweepReport.Proofs.Trend.Columns

/-! Fits by indices. The passes over the basis and the evaluation of a trend look up the entries of
the columns by the degree. Every look-up and every count is checked here as well, and a fit with a
check that fails gives nothing. Whatever the numbers are, no check fails, and the columns hold the
parts of the trend. -/
namespace SweepReport
open Scalar (zero one greatest)

def pred? : Nat → Option Nat
  | 0 => none
  | n + 1 => some n

def succ? (n : Nat) : Option Nat := if n + 1 < UInt64.size then some (n + 1) else none

variable {α : Type}

/-- The columns of the basis together with those of the passes. -/
structure Table (α : Type) extends Columns α where
  peaks : List α
  coefficients : List α

namespace Table

def ofWeighted (ws : List (Weighted α)) : Table α where
  toColumns := .ofVectors (ws.map (·.vector))
  peaks := ws.map (·.peak)
  coefficients := ws.map (·.weight)

/-- All columns have so many entries, and every basis vector has so many values. -/
structure Rectangular (t : Table α) (entries samples : Nat) : Prop where
  basis : t.basis.length = entries
  norms : t.norms.length = entries
  alphas : t.alphas.length = entries
  betas : t.betas.length = entries
  peaks : t.peaks.length = entries
  coefficients : t.coefficients.length = entries
  values : ∀ values ∈ t.basis, values.length = samples

theorem rectangular_ofWeighted {ws : List (Weighted α)} {samples : Nat}
    (h : Sized samples (ws.map (·.vector))) : (ofWeighted ws).Rectangular ws.length samples where
  basis := by simp [ofWeighted, Columns.ofVectors]
  norms := by simp [ofWeighted, Columns.ofVectors]
  alphas := by simp [ofWeighted, Columns.ofVectors]
  betas := by simp [ofWeighted, Columns.ofVectors]
  peaks := by simp [ofWeighted]
  coefficients := by simp [ofWeighted]
  values := List.forall_mem_map.mpr h

/-- The entries at an index are those of a weighted vector. -/
structure Row (t : Table α) (k : Nat) (w : Weighted α) : Prop where
  basis : t.basis[k]? = some w.vector.values
  norm : t.norms[k]? = some w.vector.norm
  alpha : t.alphas[k]? = some w.vector.alpha
  beta : t.betas[k]? = some w.vector.beta
  peak : t.peaks[k]? = some w.peak
  coefficient : t.coefficients[k]? = some w.weight

theorem row_ofWeighted (done ws : List (Weighted α)) (w : Weighted α) :
    (ofWeighted (done ++ w :: ws)).Row done.length w := by
  constructor <;> simp [ofWeighted, Columns.ofVectors]

theorem set_coefficients_ofWeighted (done ws : List (Weighted α)) (w : Weighted α) (weight : α) :
    { ofWeighted (done ++ w :: ws) with
      coefficients := (ofWeighted (done ++ w :: ws)).coefficients.set done.length weight } =
      ofWeighted (done ++ { w with weight } :: ws) := by
  simp [ofWeighted, Columns.ofVectors]

end Table

variable [Scalar α]

/-- The columns before the first pass, with no weights yet. -/
def Columns.table (c : Columns α) : Table α where
  toColumns := c
  peaks := c.basis.map fun values => greatest (values.map Scalar.abs)
  coefficients := List.replicate c.basis.length zero

theorem table_ofVectors (vs : List (BasisVector α)) :
    (Columns.ofVectors vs).table = .ofWeighted (unweighted vs) := by
  simp [Columns.table, Columns.ofVectors, Table.ofWeighted, unweighted, Function.comp_def,
    List.map_const']

def projectAt? (t : Table α) (k : Nat) (p : Pass α) : Option (Table α × Pass α) := do
  let values ← t.basis[k]?
  let norm ← t.norms[k]?
  let c := (← dot? p.residual values) / norm
  let weight ← t.coefficients[k]?
  let residual ← inStep? (fun r v => r - c * v) p.residual values
  let peak ← t.peaks[k]?
  return ({ t with coefficients := t.coefficients.set k (weight + c) },
    ⟨residual, Scalar.max p.change (Scalar.abs c * peak)⟩)

def passBy? : Nat → Nat → Table α → Pass α → Option (Table α × Pass α)
  | 0, _, t, p => some (t, p)
  | count + 1, k, t, p => do
    let (t, p) ← projectAt? t k p
    passBy? count (k + 1) t p

/-- The table after the passes; none inside of some where a change is not finite. -/
def refineBy? (tolerance : α) : Nat → Table α → List α → Option (Option (Table α))
  | 0, t, _ => some (some t)
  | passes + 1, t, residual => do
    let (t, p) ← passBy? t.basis.length 0 t ⟨residual, zero⟩
    if !Scalar.isFinite p.change then some none
    else if Scalar.le p.change tolerance then some (some t)
    else refineBy? tolerance passes t p.residual

section
variable {p : Pass α} {ws : List (Weighted α)}

/-- A projection finds its vector at its index, and changes the weight there. -/
theorem projectAt?_eq_some {w : Weighted α} (hw : w.vector.values.length = p.residual.length)
    (done ws : List (Weighted α)) :
    projectAt? (.ofWeighted (done ++ w :: ws)) done.length p =
      some (.ofWeighted (done ++ (project p w).1 :: ws), (project p w).2) := by
  have hrow := Table.row_ofWeighted done ws w
  have hdot : dot? p.residual w.vector.values = some (Scalar.dot p.residual w.vector.values) := by
    rw [dot?, inStep?_eq_some hw.symm]
    rfl
  simp only [projectAt?, hrow.basis, hrow.norm, hrow.coefficient, hrow.peak, hdot,
    inStep?_eq_some hw.symm, Table.set_coefficients_ofWeighted, Option.bind_eq_bind,
    Option.bind_some]
  rfl

/-- A pass by indices, when some vectors have been done, is a pass over the others. -/
theorem passBy?_eq_some (hws : Sized p.residual.length (ws.map (·.vector)))
    (done : List (Weighted α)) :
    passBy? ws.length done.length (.ofWeighted (done ++ ws)) p =
      some (.ofWeighted (done ++ (passOver p ws).1), (passOver p ws).2) := by
  induction ws generalizing p done with
  | nil => rfl
  | cons w ws ih =>
    obtain ⟨hw, hrest⟩ := List.forall_mem_cons.mp hws
    have hlength : (project p w).2.residual.length = p.residual.length := length_takeOff hw
    have hnext := ih (p := (project p w).2) (hlength ▸ hrest) (done ++ [(project p w).1])
    rw [List.append_assoc, List.append_assoc, List.length_append] at hnext
    rw [List.length_cons, passBy?, projectAt?_eq_some hw]
    exact hnext

theorem refineBy?_eq_some {residual : List α} (hws : Sized residual.length (ws.map (·.vector)))
    (tolerance : α) (passes made : Nat) :
    refineBy? tolerance passes (.ofWeighted ws) residual =
      some ((refine tolerance passes made ws residual).map fun r => .ofWeighted r.1) := by
  induction passes generalizing ws residual made with
  | zero => rfl
  | succ passes ih =>
    have hpass := passBy?_eq_some (p := ⟨residual, zero⟩) hws []
    have hlength := length_passOver (p := ⟨residual, zero⟩) hws
    rw [List.nil_append, List.nil_append, List.length_nil] at hpass
    rw [refineBy?, refine, (Table.rectangular_ofWeighted hws).basis, hpass]
    dsimp only [Option.bind_eq_bind, Option.bind_some]
    split
    · rfl
    · split
      · rfl
      · exact ih (by rw [vector_passOver, hlength]; exact hws) _

end

/-- A fit by indices: its table, and how its samples are mapped. -/
structure IndexedFit (α : Type) where
  table : Table α
  offset : α
  scale : α

/-- How many vectors a fit is tried with: one more than the degree, which is at most one less than the
number of different abscissas. -/
def vectorCount? (xs : List α) (degree : Nat) : Option Nat := do
  let last ← pred? (distinct xs).length
  succ? (min degree last)

/-- None where a check fails, and none inside of some where there is no trend. -/
def fitBy? (xs ys : List α) (degree : Nat) : Option (Option (IndexedFit α)) :=
  if xs.length ≠ ys.length then some none
  else match range? xs with
    | none => some none
    | some (least, greatest) => do
      let offset := midpoint least greatest
      let scale := halfWidth least greatest
      let ts := xs.map fun x => (x - offset) / scale
      let count ← vectorCount? xs degree
      let c ← columnsFrom? ts count 0 (ts.map fun _ => zero) (ts.map fun _ => one) one .empty
      if c.basis.isEmpty then some none
      else do
        let table? ← refineBy? (toleranceFor ys) passLimit c.table ys
        return table?.map fun table => ⟨table, offset, scale⟩

/-- Adds so many weighted basis polynomials from the index `k` on. -/
def Table.evalBy? (t : Table α) (x : α) : Nat → Nat → α → α → α → Option α
  | 0, _, _, _, sum => some sum
  | count + 1, k, prev, cur, sum => do
    let c ← t.coefficients[k]?
    let alpha ← t.alphas[k]?
    let beta ← t.betas[k]?
    t.evalBy? x count (k + 1) cur (recur x alpha beta prev cur) (sum + c * cur)

namespace IndexedFit

def ofWeighted (ws : List (Weighted α)) (offset scale : α) : IndexedFit α :=
  ⟨.ofWeighted ws, offset, scale⟩

def eval? (f : IndexedFit α) (x : α) : Option α :=
  f.table.evalBy? ((x - f.offset) / f.scale) f.table.coefficients.length 0 zero one zero

def trend (f : IndexedFit α) : Trend α where
  terms := List.zipWith (fun c p => ⟨c, p.1, p.2⟩) f.table.coefficients
    (f.table.alphas.zip f.table.betas)
  offset := f.offset
  scale := f.scale

omit [Scalar α] in
theorem trend_ofWeighted (ws : List (Weighted α)) (offset scale : α) :
    (ofWeighted ws offset scale).trend = ⟨ws.map termOf, offset, scale⟩ := by
  simp only [trend, ofWeighted, Table.ofWeighted, Columns.ofVectors, Trend.mk.injEq, and_true]
  induction ws with
  | nil => rfl
  | cons w ws ih => exact congrArg (List.cons _) ih

end IndexedFit

theorem evalBy?_eq_some (x : α) (ws done : List (Weighted α)) (prev cur sum : α) :
    (Table.ofWeighted (done ++ ws)).evalBy? x ws.length done.length prev cur sum =
      some (Trend.evalTerms x (ws.map termOf) prev cur sum) := by
  induction ws generalizing done prev cur sum with
  | nil => rfl
  | cons w ws ih =>
    have hrow := Table.row_ofWeighted done ws w
    have hnext := ih (done ++ [w]) cur (recur x w.vector.alpha w.vector.beta prev cur)
      (sum + w.weight * cur)
    rw [List.append_assoc, List.length_append] at hnext
    rw [List.length_cons, Table.evalBy?, hrow.coefficient, hrow.alpha, hrow.beta]
    exact hnext

/-- The columns give the value of the trend everywhere. -/
theorem IndexedFit.eval?_ofWeighted (ws : List (Weighted α)) (offset scale x : α) :
    (ofWeighted ws offset scale).eval? x = some ((ofWeighted ws offset scale).trend.eval x) := by
  have hcount : (Table.ofWeighted ws).coefficients.length = ws.length := by simp [Table.ofWeighted]
  rw [trend_ofWeighted, eval?, ofWeighted, hcount]
  exact evalBy?_eq_some _ ws [] _ _ _

section
variable {xs ys : List α}

theorem length_distinct_le (xs : List α) : (distinct xs).length ≤ xs.length := by
  induction xs with
  | nil => exact Nat.le_refl 0
  | cons x xs ih =>
    rw [distinct]
    split
    · exact Nat.le_succ_of_le ih
    · exact Nat.succ_le_succ ih

theorem length_distinct_pos (hne : xs ≠ []) : 0 < (distinct xs).length := by
  induction xs with
  | nil => contradiction
  | cons x xs ih =>
    rw [distinct]
    split
    · rename_i hsame
      refine ih fun hnil => ?_
      rw [hnil] at hsame
      contradiction
    · exact Nat.succ_pos _

theorem succ_usedDegree_lt (hne : xs ≠ []) (hxs : xs.length < UInt64.size) (degree : Nat) :
    usedDegree xs degree + 1 < UInt64.size := by
  have hle := length_distinct_le xs
  have hpos := length_distinct_pos hne
  rw [usedDegree]
  omega

theorem length_basisFrom_le (ts : List α) (count k : Nat) (prev cur : List α) (prevNorm : α) :
    (basisFrom ts count k prev cur prevNorm).1.length ≤ count := by
  induction count generalizing k prev cur prevNorm with
  | zero => exact Nat.le_refl 0
  | succ count ih =>
    rw [basisFrom]
    dsimp only
    split
    · exact Nat.succ_le_succ (ih ..)
    · exact Nat.zero_le _

/-- Some samples are fewer than there are words, so neither count of a fit is out of range. -/
theorem vectorCount?_eq_some (hne : xs ≠ []) (hxs : xs.length < UInt64.size) (degree : Nat) :
    vectorCount? xs degree = some (usedDegree xs degree + 1) := by
  have hword := succ_usedDegree_lt hne hxs degree
  obtain ⟨last, hlast⟩ : ∃ last, (distinct xs).length = last + 1 :=
    Nat.exists_eq_succ_of_ne_zero (Nat.ne_of_gt (length_distinct_pos hne))
  rw [usedDegree, hlast, Nat.add_sub_cancel] at hword ⊢
  rw [vectorCount?, hlast]
  exact if_pos hword

theorem columnsFrom?_basis (ts : List α) (degree : Nat) :
    columnsFrom? ts (degree + 1) 0 (ts.map fun _ => zero) (ts.map fun _ => one) one .empty =
      some (.ofVectors (basis ts degree).1) :=
  columnsFrom?_eq_some (List.length_map _) (List.length_map _) one []

/-- What a fit by indices leaves for a trend: columns of one length with the parts of the trend, which
give its value everywhere. -/
structure IndexedFit.Holds (f : IndexedFit α) (xs : List α) (degree : Nat) (trend : Trend α) :
    Prop where
  parts : f.trend = trend
  columns : ∃ m, 1 ≤ m ∧ m ≤ min degree ((distinct xs).length - 1) + 1 ∧
    f.table.Rectangular m xs.length ∧ trend.degree = m - 1
  eval : ∀ x, f.eval? x = some (trend.eval x)

theorem IndexedFit.holds_ofWeighted {ws : List (Weighted α)} (hne : ws ≠ []) {degree : Nat}
    (hcount : ws.length ≤ usedDegree xs degree + 1) (hws : Sized xs.length (ws.map (·.vector)))
    (offset scale : α) :
    (ofWeighted ws offset scale).Holds xs degree ⟨ws.map termOf, offset, scale⟩ where
  parts := trend_ofWeighted ws offset scale
  columns := ⟨ws.length, List.length_pos_iff.mpr hne, hcount, Table.rectangular_ofWeighted hws,
    congrArg (· - 1) (List.length_map _)⟩
  eval x := by rw [eval?_ofWeighted, trend_ofWeighted]

/-- Once the columns are built, the passes over them are those over the vectors. -/
theorem refineBy?_table {vs : List (BasisVector α)} (hvs : Sized ys.length vs) :
    refineBy? (toleranceFor ys) passLimit (Columns.ofVectors vs).table ys =
      some ((refine (toleranceFor ys) passLimit 0 (unweighted vs) ys).map
        fun r => .ofWeighted r.1) := by
  rw [table_ofVectors]
  exact refineBy?_eq_some (by rwa [vector_unweighted]) _ _ _

theorem sized_basis (ts : List α) (degree : Nat) : Sized ts.length (basis ts degree).1 :=
  sized_basisFrom (List.length_map _) (List.length_map _) _ _ _

/-- A fit by indices comes to the same end as the fit. -/
theorem fitBy?_cases (hxs : xs.length < UInt64.size) (ys : List α) (degree : Nat) :
    (Trend.fit? xs ys degree = none ∧ fitBy? xs ys degree = some none) ∨
    ∃ trend f, Trend.fit? xs ys degree = some trend ∧ fitBy? xs ys degree = some (some f) ∧
      f.Holds xs degree trend := by
  by_cases hlength : xs.length = ys.length
  case neg => exact .inl ⟨by rw [Trend.fit?, Fit.ofSamples, if_pos hlength], if_pos hlength⟩
  rw [Trend.fit?, Fit.ofSamples, fitBy?, if_neg (fun h => h hlength), if_neg (fun h => h hlength)]
  by_cases hne : xs = []
  case pos =>
    subst hne
    exact .inl ⟨rfl, rfl⟩
  obtain ⟨least, greatest, hrange⟩ := exists_range hne
  rw [hrange]
  dsimp only
  generalize midpoint least greatest = offset
  generalize halfWidth least greatest = scale
  rw [vectorCount?_eq_some hne hxs, Option.bind_eq_bind, Option.bind_some, columnsFrom?_basis,
    Option.bind_eq_bind, Option.bind_some]
  obtain ⟨vs, hvs⟩ :
    ∃ vs, (basis (xs.map fun x => (x - offset) / scale) (usedDegree xs degree)).1 = vs := ⟨_, rfl⟩
  have hsized : Sized ys.length vs := by
    have := sized_basis (xs.map fun x => (x - offset) / scale) (usedDegree xs degree)
    rwa [List.length_map, hvs, hlength] at this
  have hcount : vs.length ≤ usedDegree xs degree + 1 := hvs ▸ length_basisFrom_le ..
  rw [hvs]
  by_cases hempty : vs = []
  case pos =>
    subst hempty
    refine .inl ⟨?_, rfl⟩
    rw [Fit.ofRange]
    dsimp only
    rw [hvs]
    rfl
  rw [trend_ofRange offset scale hvs hempty, refineBy?_table hsized]
  have hbasis : (Columns.ofVectors vs).basis.isEmpty = false := by
    simpa [Columns.ofVectors] using hempty
  rw [hbasis]
  cases hrefine : refine (toleranceFor ys) passLimit 0 (unweighted vs) ys with
  | none => exact .inl ⟨rfl, rfl⟩
  | some r =>
    obtain ⟨ws, count⟩ := r
    have hvectors : ws.map (·.vector) = vs := (vector_refine hrefine).trans (vector_unweighted vs)
    have hws : ws.length = vs.length := by rw [← hvectors, List.length_map]
    refine .inr ⟨_, .ofWeighted ws offset scale, rfl, rfl, IndexedFit.holds_ofWeighted ?_ ?_ ?_ _ _⟩
    · rwa [← List.length_pos_iff, hws, List.length_pos_iff]
    · rwa [hws]
    · rwa [hvectors, hlength]

end

/-- A fit and its trend never look beyond the end of a column, never walk lists of different lengths
in step, and count in words, whatever the arithmetic and the numbers: the fit by indices passes all
its checks and ends as the fit does, and the columns it leaves are all of one length. -/
theorem fit?_stays_in_range (xs ys : List α) (hxs : xs.length < UInt64.size) (degree : Nat) :
    (xs ≠ [] → 0 < (distinct xs).length ∧ usedDegree xs degree + 1 < UInt64.size) ∧
    (Trend.fit? xs ys degree = none → fitBy? xs ys degree = some none) ∧
    ∀ trend, Trend.fit? xs ys degree = some trend →
      ∃ f, fitBy? xs ys degree = some (some f) ∧ f.Holds xs degree trend := by
  refine ⟨fun hne => ⟨length_distinct_pos hne, succ_usedDegree_lt hne hxs degree⟩, fun hnone => ?_,
    fun trend hsome => ?_⟩
  · obtain ⟨-, hfit⟩ | ⟨trend, f, htrend, -⟩ := fitBy?_cases hxs ys degree
    · exact hfit
    · rw [hnone] at htrend
      contradiction
  · obtain ⟨hnone, -⟩ | ⟨trend', f, htrend, hfit, hholds⟩ := fitBy?_cases hxs ys degree
    · rw [hnone] at hsome
      contradiction
    · obtain rfl := Option.some.inj (htrend.symm.trans hsome)
      exact ⟨f, hfit, hholds⟩

/-- Abscissas that are no numbers or infinite, and a degree that is the last word. -/
theorem awkward_fit_stays_in_range :
    ∃ (trend : Trend Float) (f : IndexedFit Float),
      Trend.fit? [0.0 / 0.0, 1.0 / 0.0, 8] [1, 2, 3] 18446744073709551615 = some trend ∧
      fitBy? [0.0 / 0.0, 1.0 / 0.0, 8] [1, 2, 3] 18446744073709551615 = some (some f) ∧
      f.Holds [0.0 / 0.0, 1.0 / 0.0, 8] 18446744073709551615 trend := by
  have hsome : (Trend.fit? ([0.0 / 0.0, 1.0 / 0.0, 8] : List Float) [1, 2, 3]
      18446744073709551615).isSome = true := by decide +kernel
  obtain ⟨trend, htrend⟩ := Option.isSome_iff_exists.mp hsome
  obtain ⟨-, -, hfit⟩ := fit?_stays_in_range ([0.0 / 0.0, 1.0 / 0.0, 8] : List Float) [1, 2, 3]
    (by decide) 18446744073709551615
  obtain ⟨f, hfitBy, hholds⟩ := hfit trend htrend
  exact ⟨trend, f, htrend, hfitBy, hholds⟩

end SweepReport
