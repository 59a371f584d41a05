import SweepReport.Proofs.Double.Counting
import SweepReport.Proofs.Trend.Passes

/-! Passes over doubles that are not all finite. The first vector of the basis is one everywhere, so
what the first projection takes off is the mean of the ordinates. If it is infinite, so is the
change, and there are no weights; if it is no number, the change does not show it, and the whole
residual is lost. -/
namespace SweepReport
open Double
open Float.Model.UnpackedFloat (Sign)
open Scalar (dot zero one greatest)

theorem one_float : (one : Float) = Float.ofNat 1 := rfl

section
variable {ts ys : List Float}

theorem values_unitVector (ts : List Float) :
    (unitVector ts).values = List.replicate ts.length one := List.map_const'

theorem dot_ones (ys : List Float) : dot ys (List.replicate ys.length one) = Scalar.sum ys := by
  have hproducts : List.zipWith (· * ·) ys (List.replicate ys.length (one : Float)) = ys := by
    induction ys with
    | nil => rfl
    | cons y ys ih =>
      rw [List.length_cons, List.replicate_succ, List.zipWith_cons_cons, ih, one_float,
        Double.mul_one]
  rw [dot, hproducts]

theorem component_unitVector (hlength : ts.length = ys.length) :
    component ys (unitVector ts) = Scalar.sum ys / (unitVector ts).norm := by
  rw [component, values_unitVector, hlength, dot_ones]

theorem isCount_norm (hne : ts ≠ []) : IsCount (unitVector ts).norm := by
  have hlength : ts.length = (unitVector ts).values.length := by
    rw [values_unitVector, List.length_replicate]
  have hnorm : (unitVector ts).norm = dot (unitVector ts).values (unitVector ts).values := rfl
  rw [hnorm]
  conv => arg 1; arg 2; rw [values_unitVector, hlength]
  rw [dot_ones, values_unitVector]
  exact isCount_sum (List.length_pos_iff.mpr hne)

theorem isUsable_norm (hne : ts ≠ []) : isUsable (unitVector ts).norm := by
  have hcount := isCount_norm hne
  have hpositive : Scalar.le (unitVector ts).norm zero = false :=
    decide_eq_false hcount.not_le_zero
  rw [isUsable, hpositive]
  exact Bool.and_eq_true_iff.mpr ⟨hcount.isFinite, rfl⟩

theorem peak_unitVector (hne : ts ≠ []) :
    greatest ((unitVector ts).values.map Scalar.abs) = one := by
  obtain ⟨t, ts, rfl⟩ := List.exists_cons_of_ne_nil hne
  have hrest (n : Nat) :
      (List.replicate n (Scalar.abs (one : Float))).foldl Scalar.max one = one := by
    induction n with
    | zero => rfl
    | succ n ih => exact ih
  rw [values_unitVector, List.map_replicate]
  exact hrest ts.length

end

/-- Some samples, and none is a number. -/
def Lost (residual : List Float) : Prop := residual ≠ [] ∧ ∀ r ∈ residual, r.isNaN

section
variable {residual values : List Float} {c : Float} {v : BasisVector Float} {p : Pass Float}
  {w : Weighted Float} {ws : List (Weighted Float)}

theorem lost_takeOff (hc : c.isNaN) (hne : residual ≠ []) (hv : values.length = residual.length) :
    Lost (takeOff c residual values) := by
  refine ⟨fun hnil => hne ?_, fun r hr => ?_⟩
  · rw [← List.length_eq_zero_iff, ← length_takeOff hv, hnil]
    rfl
  · obtain ⟨i, hi, rfl⟩ := List.getElem_of_mem hr
    simp only [takeOff, List.getElem_zipWith]
    exact isNaN_sub (.inr (isNaN_mul (.inl hc)))

theorem isNaN_component (h : Lost residual) (hv : v.values.length = residual.length) :
    (component residual v).isNaN := by
  obtain ⟨hne, hall⟩ := h
  obtain ⟨r, residual, rfl⟩ := List.exists_cons_of_ne_nil hne
  obtain ⟨x, values, hvalues⟩ := List.exists_cons_of_length_eq_add_one hv
  rw [component, dot, hvalues, List.zipWith_cons_cons]
  have hproduct : (r * x).isNaN := isNaN_mul (.inl (hall r List.mem_cons_self))
  exact isNaN_div (.inl (isNaN_sum List.mem_cons_self hproduct))

/-- A projection that takes off what is no number changes nothing that shows. -/
theorem project_of_isNaN (hc : (component p.residual w.vector).isNaN)
    (hchange : p.change.isNaN = false) :
    (project p w).1.weight.isNaN ∧ (project p w).2.change = p.change :=
  ⟨isNaN_add (.inr hc), max_of_isNaN hchange (isNaN_mul (.inl (isNaN_abs hc)))⟩

/-- Over a lost residual a pass changes nothing that shows. -/
theorem passOver_of_lost (h : Lost p.residual) (hchange : p.change.isNaN = false)
    (hws : Sized p.residual.length (ws.map Weighted.vector)) :
    Lost (passOver p ws).2.residual ∧ (passOver p ws).2.change = p.change := by
  induction ws generalizing p with
  | nil => exact ⟨h, rfl⟩
  | cons w ws ih =>
    obtain ⟨hw, hrest⟩ := List.forall_mem_cons.mp hws
    have hc := isNaN_component h hw
    have hlength : (project p w).2.residual.length = p.residual.length := length_takeOff hw
    obtain ⟨-, hsame⟩ := project_of_isNaN hc hchange
    rw [passOver]
    dsimp only
    rw [← hsame] at hchange ⊢
    exact ih (lost_takeOff hc h.1 hw) hchange (hlength ▸ hrest)

/-- A pass that starts with taking off what is no number. -/
theorem passOver_of_isNaN (hc : (component residual w.vector).isNaN) (hne : residual ≠ [])
    (hws : Sized residual.length ((w :: ws).map Weighted.vector)) :
    ∃ w' ws' left, passOver ⟨residual, zero⟩ (w :: ws) = (w' :: ws', ⟨left, zero⟩) ∧
      w'.weight.isNaN ∧ Lost left ∧ Sized left.length ((w' :: ws').map Weighted.vector) := by
  obtain ⟨hw, hrest⟩ := List.forall_mem_cons.mp hws
  obtain ⟨hweight, hsame⟩ := project_of_isNaN (p := ⟨residual, zero⟩) hc isNaN_zero
  have hlength : (project ⟨residual, zero⟩ w).2.residual.length = residual.length :=
    length_takeOff hw
  have hlost : Lost (project ⟨residual, zero⟩ w).2.residual := lost_takeOff hc hne hw
  obtain ⟨hleft, hchange⟩ := passOver_of_lost hlost (hsame ▸ isNaN_zero) (hlength ▸ hrest)
  have hvectors := vector_passOver ⟨residual, zero⟩ (w :: ws)
  have hlengths := length_passOver (p := ⟨residual, zero⟩) hws
  refine ⟨(project ⟨residual, zero⟩ w).1, (passOver (project ⟨residual, zero⟩ w).2 ws).1,
    (passOver (project ⟨residual, zero⟩ w).2 ws).2.residual, ?_, hweight, hleft, ?_⟩
  · exact congrArg (Prod.mk _) (congrArg (Pass.mk _) (hchange.trans hsame))
  · exact hlengths ▸ hvectors ▸ hws

/-- Passes end with weights then, and the first of them is no number. -/
theorem refine_of_isNaN (hc : (component residual w.vector).isNaN) (hne : residual ≠ [])
    (hws : Sized residual.length ((w :: ws).map Weighted.vector)) (tolerance : Float)
    (passes done : Nat) :
    ∃ w' ws' count,
      refine tolerance (passes + 1) done (w :: ws) residual = some (w' :: ws', count) ∧
        w'.weight.isNaN := by
  have hfinite : Scalar.isFinite (zero : Float) = true := rfl
  induction passes generalizing done residual w ws with
  | zero =>
    obtain ⟨w', ws', left, hpass, hweight, -⟩ := passOver_of_isNaN hc hne hws
    rw [refine, hpass]
    simp only [hfinite, Bool.not_true, Bool.false_eq_true, if_false]
    split
    · exact ⟨w', ws', _, rfl, hweight⟩
    · exact ⟨w', ws', _, rfl, hweight⟩
  | succ passes ih =>
    obtain ⟨w', ws', left, hpass, hweight, hlost, hsized⟩ := passOver_of_isNaN hc hne hws
    rw [refine, hpass]
    simp only [hfinite, Bool.not_true, Bool.false_eq_true, if_false]
    split
    · exact ⟨w', ws', _, rfl, hweight⟩
    · exact ih (isNaN_component hlost (List.forall_mem_cons.mp hsized).1) hlost.1 hsized (done + 1)

/-- An infinite change stays infinite for the rest of the pass. -/
theorem passOver_of_infinite (h : parts p.change = .infinity .positive) :
    parts (passOver p ws).2.change = .infinity .positive := by
  induction ws generalizing p with
  | nil => exact h
  | cons w ws ih =>
    rw [passOver]
    exact ih (max_infinity (by rw [isNaN_eq, h]; rfl) (.inl h))

/-- Where the first projection takes off something infinite, there are no weights. -/
theorem refine_of_infinite {s : Sign} (hc : parts (component residual w.vector) = .infinity s)
    (hpeak : w.peak = one) (tolerance : Float) (passes done : Nat) :
    refine tolerance (passes + 1) done (w :: ws) residual = none := by
  have hfirst : parts (project ⟨residual, zero⟩ w).2.change = .infinity .positive := by
    refine max_infinity isNaN_zero (.inr ?_)
    rw [hpeak, one_float, Double.mul_one]
    exact parts_abs_infinity hc
  have hchange : parts (passOver ⟨residual, zero⟩ (w :: ws)).2.change = .infinity .positive :=
    passOver_of_infinite (p := (project ⟨residual, zero⟩ w).2) hfirst
  have hinfinite : Scalar.isFinite (passOver ⟨residual, zero⟩ (w :: ws)).2.change = false := by
    change Float.isFinite _ = false
    rw [isFinite_eq, hchange]
    rfl
  rw [refine]
  dsimp only
  rw [hinfinite]
  rfl

end

end SweepReport
