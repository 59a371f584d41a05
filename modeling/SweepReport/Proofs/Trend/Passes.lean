import SweepReport.Trend.Fit

/-! Fits in any arithmetic: where the basis starts, that its vectors have a value for each sample, and
what the passes over it leave as it is. -/
namespace SweepReport
open Scalar (dot zero one)
variable {α : Type} [Scalar α] {n : Nat} {p : Pass α} {ws : List (Weighted α)}

/-- Vectors with a value for each of so many samples. -/
def Sized (n : Nat) (vs : List (BasisVector α)) : Prop := ∀ v ∈ vs, v.values.length = n

theorem length_takeOff {c : α} {residual values : List α} (h : values.length = residual.length) :
    (takeOff c residual values).length = residual.length := by
  rw [takeOff, List.length_zipWith, h, Nat.min_self]

@[simp] theorem vector_passOver (p : Pass α) (ws : List (Weighted α)) :
    (passOver p ws).1.map Weighted.vector = ws.map Weighted.vector := by
  induction ws generalizing p with
  | nil => rfl
  | cons w ws ih => simp [passOver, project, ih]

theorem length_passOver (hws : Sized p.residual.length (ws.map Weighted.vector)) :
    (passOver p ws).2.residual.length = p.residual.length := by
  induction ws generalizing p with
  | nil => rfl
  | cons w ws ih =>
    obtain ⟨hw, hrest⟩ := List.forall_mem_cons.mp hws
    have hlength : (project p w).2.residual.length = p.residual.length := length_takeOff hw
    rw [passOver]
    dsimp only
    rw [ih (hlength ▸ hrest), hlength]

section
variable {f : Weighted α → Weighted α}

/-- What a projection does not look at can be changed before the passes or after them. -/
theorem passOver_map (hf : ∀ p w, project p (f w) = (f (project p w).1, (project p w).2))
    (p : Pass α) (ws : List (Weighted α)) :
    passOver p (ws.map f) = ((passOver p ws).1.map f, (passOver p ws).2) := by
  induction ws generalizing p with
  | nil => rfl
  | cons w ws ih => simp [passOver, hf, ih]

theorem refine_map (hf : ∀ p w, project p (f w) = (f (project p w).1, (project p w).2))
    (tolerance : α) (passes done : Nat) (ws : List (Weighted α)) (residual : List α) :
    refine tolerance passes done (ws.map f) residual =
      (refine tolerance passes done ws residual).map fun q => (q.1.map f, q.2) := by
  induction passes generalizing done ws residual with
  | zero => rfl
  | succ passes ih =>
    rw [refine, refine, passOver_map hf]
    dsimp only
    split
    · rfl
    · split
      · rfl
      · exact ih _ _ _

end

theorem vector_refine {tolerance : α} {passes done : Nat} {residual : List α}
    {ws' : List (Weighted α)} {count : Option Nat}
    (h : refine tolerance passes done ws residual = some (ws', count)) :
    ws'.map Weighted.vector = ws.map Weighted.vector := by
  induction passes generalizing done ws residual with
  | zero =>
    obtain ⟨rfl, -⟩ := Prod.mk.inj (Option.some.inj h)
    rfl
  | succ passes ih =>
    rw [refine] at h
    dsimp only at h
    split at h
    · contradiction
    · split at h
      · obtain ⟨rfl, -⟩ := Prod.mk.inj (Option.some.inj h)
        exact vector_passOver _ ws
      · rw [ih h, vector_passOver]

section
variable {ts : List α}

theorem length_nextValues {alpha beta : α} {cur prev : List α} (hcur : cur.length = ts.length)
    (hprev : prev.length = ts.length) : (nextValues alpha beta ts cur prev).length = ts.length := by
  induction ts generalizing cur prev with
  | nil => rfl
  | cons t ts ih =>
    obtain ⟨c, cur, rfl⟩ := List.exists_cons_of_length_eq_add_one hcur
    obtain ⟨q, prev, rfl⟩ := List.exists_cons_of_length_eq_add_one hprev
    exact congrArg (· + 1) (ih (Nat.succ.inj hcur) (Nat.succ.inj hprev))

theorem nextValues_map (alpha beta : α) (f g : α → α) (ts : List α) :
    nextValues alpha beta ts (ts.map f) (ts.map g) =
      ts.map fun t => recur t alpha beta (g t) (f t) := by
  induction ts with
  | nil => rfl
  | cons t ts ih => exact congrArg (List.cons _) ih

theorem sized_basisFrom {prev cur : List α} (hprev : prev.length = ts.length)
    (hcur : cur.length = ts.length) (count k : Nat) (prevNorm : α) :
    Sized ts.length (basisFrom ts count k prev cur prevNorm).1 := by
  induction count generalizing k prev cur prevNorm with
  | zero => exact fun v hv => absurd hv List.not_mem_nil
  | succ count ih =>
    rw [basisFrom]
    dsimp only
    split
    · exact List.forall_mem_cons.mpr ⟨hcur, ih hcur (length_nextValues hcur hprev) _ _⟩
    · exact fun v hv => absurd hv List.not_mem_nil

/-- The basis vector of degree zero. -/
def unitVector (ts : List α) : BasisVector α :=
  let ones := ts.map fun _ => one
  ⟨ones, dot ones ones, alphaOf ts ones (dot ones ones), zero⟩

/-- The basis starts with ones, as long as their sum is usable. -/
theorem basis_eq_cons (h : isUsable (unitVector ts).norm) (degree : Nat) :
    (basis ts degree).1 = unitVector ts ::
      (basisFrom ts degree 1 (unitVector ts).values
        (nextValues (unitVector ts).alpha zero ts (unitVector ts).values (ts.map fun _ => zero))
        (unitVector ts).norm).1 := by
  have hnorm : isUsable (dot (ts.map fun _ => one) (ts.map fun _ => (one : α))) := h
  rw [basis, basisFrom]
  simp only [hnorm, if_true]
  rfl

end

section
variable {xs ys : List α}

theorem exists_range (hne : xs ≠ []) : ∃ least greatest, range? xs = some (least, greatest) := by
  cases xs with
  | nil => contradiction
  | cons x xs =>
    cases xs with
    | nil => exact ⟨x, x, rfl⟩
    | cons y rest => exact ⟨_, _, rfl⟩

theorem fit?_eq_ofRange (hne : xs ≠ []) (hlength : xs.length = ys.length) (degree : Nat) :
    ∃ least greatest, Trend.fit? xs ys degree =
      (Fit.ofRange (midpoint least greatest) (halfWidth least greatest) xs ys degree).trend := by
  obtain ⟨least, greatest, hrange⟩ := exists_range hne
  refine ⟨least, greatest, ?_⟩
  rw [Trend.fit?, Fit.ofSamples, if_neg (fun h => h hlength), hrange]

theorem trend_ofRange (offset scale : α) {vs : List (BasisVector α)} {degree : Nat}
    (hbasis : (basis (xs.map fun x => (x - offset) / scale) (usedDegree xs degree)).1 = vs)
    (hne : vs ≠ []) :
    (Fit.ofRange offset scale xs ys degree).trend =
      (refine (toleranceFor ys) passLimit 0 (unweighted vs) ys).map
        fun q => ⟨q.1.map termOf, offset, scale⟩ := by
  subst hbasis
  rw [Fit.ofRange]
  dsimp only
  rw [if_neg (by rwa [List.isEmpty_iff])]
  cases refine (toleranceFor ys) passLimit 0 (unweighted _) ys <;> rfl

theorem unweighted_cons (v : BasisVector α) (vs : List (BasisVector α)) :
    unweighted (v :: vs) =
      ⟨v, Scalar.greatest (v.values.map Scalar.abs), zero⟩ :: unweighted vs := rfl

theorem vector_unweighted (vs : List (BasisVector α)) :
    (unweighted vs).map Weighted.vector = vs := by
  rw [unweighted, List.map_map]
  exact List.map_id vs

end

end SweepReport
