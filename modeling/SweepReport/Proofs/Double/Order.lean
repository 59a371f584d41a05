import SweepReport.Proofs.Double.Parts

/-! The order of doubles. Those that are numbers stand in line by a whole number, their rank, which
both zeros share. -/
namespace SweepReport.Double
open Float.Model (UnpackedFloat)
open Float.Model.UnpackedFloat

/-- The place in the line of numbers, counted from zero. -/
def rankOf : UnpackedFloat → Int
  | .notANumber => 0
  | .zero _ => 0
  | .infinity s => s.apply (2046 * 2 ^ 53)
  | .finite s m e _ => s.apply ((e + 1074) * 2 ^ 53 + m)

def rank (x : Float) : Int := rankOf (parts x)

/-- The greater exponent decides, as each leaves room for all mantissas. -/
theorem compare_exponent_then {m n : Nat} {e f : Int} (hm : m < 2 ^ 53) (hn : n < 2 ^ 53) :
    (compare e f).then (compare m n) =
      compare ((e + 1074) * 2 ^ 53 + m) ((f + 1074) * 2 ^ 53 + n) := by
  rcases Int.lt_trichotomy e f with h | rfl | h
  · rw [Int.compare_eq_lt.mpr h, Int.compare_eq_lt.mpr (by omega)]
    rfl
  · rw [Int.compare_eq_eq.mpr rfl]
    rcases Nat.lt_trichotomy m n with h | rfl | h
    · rw [Nat.compare_eq_lt.mpr h, Int.compare_eq_lt.mpr (by omega)]
      rfl
    · rw [Nat.compare_eq_eq.mpr rfl, Int.compare_eq_eq.mpr rfl]
      rfl
    · rw [Nat.compare_eq_gt.mpr h, Int.compare_eq_gt.mpr (by omega)]
      rfl
  · rw [Int.compare_eq_gt.mpr h, Int.compare_eq_gt.mpr (by omega)]
    rfl

theorem compare_neg (a b : Int) : (compare a b).swap = compare (-a) (-b) := by
  rcases Int.lt_trichotomy a b with h | rfl | h
  · rw [Int.compare_eq_lt.mpr h, Int.compare_eq_gt.mpr (by omega)]
    rfl
  · rw [Int.compare_eq_eq.mpr rfl, Int.compare_eq_eq.mpr rfl]
    rfl
  · rw [Int.compare_eq_gt.mpr h, Int.compare_eq_lt.mpr (by omega)]
    rfl

theorem some_lt {a b : Int} (h : a < b) : some .lt = some (compare a b) :=
  congrArg some (Int.compare_eq_lt.mpr h).symm

theorem some_gt {a b : Int} (h : b < a) : some .gt = some (compare a b) :=
  congrArg some (Int.compare_eq_gt.mpr h).symm

theorem rankOf_finite_bounds {m : Nat} {e : Int} (hm : 0 < m) (hc : Canonical m e) :
    0 < (e + 1074) * 2 ^ 53 + m ∧ (e + 1074) * 2 ^ 53 + m < 2046 * 2 ^ 53 := by
  obtain ⟨hbits, hleast, hgreatest, -⟩ := hc
  omega

theorem compare_finite {s t : Sign} {m n : Nat} {e f : Int} {hm : 0 < m} {hn : 0 < n}
    (hc : Canonical m e) (hd : Canonical n f) :
    UnpackedFloat.compare (.finite s m e hm) (.finite t n f hn) =
      some (compare (rankOf (.finite s m e hm)) (rankOf (.finite t n f hn))) := by
  obtain ⟨hpos, -⟩ := rankOf_finite_bounds hm hc
  obtain ⟨hpos', -⟩ := rankOf_finite_bounds hn hd
  have hcompare := compare_exponent_then (e := e) (f := f) hc.bits hd.bits
  cases s
  · cases t
    · exact congrArg some ((congrArg Ordering.swap hcompare).trans (compare_neg _ _))
    · exact some_lt (by simp only [rankOf, Sign.apply]; omega)
  · cases t
    · exact some_gt (by simp only [rankOf, Sign.apply]; omega)
    · exact congrArg some hcompare

/-- Numbers compare as their ranks. -/
theorem compare_eq {a b : Float} (ha : a.isNaN = false) (hb : b.isNaN = false) :
    UnpackedFloat.compare (parts a) (parts b) = some (compare (rank a) (rank b)) := by
  rw [isNaN_eq] at ha hb
  unfold rank
  cases ha' : parts a with
  | notANumber => simp [ha', UnpackedFloat.isNaN] at ha
  | infinity s =>
    cases hb' : parts b with
    | notANumber => simp [hb', UnpackedFloat.isNaN] at hb
    | infinity t => cases s <;> cases t <;> rfl
    | zero t => cases s <;> rfl
    | finite t n f hn =>
      obtain ⟨hpos, hlt⟩ := rankOf_finite_bounds hn (canonical_parts hb')
      cases s
      · cases t <;> exact some_lt (by simp only [rankOf, Sign.apply]; omega)
      · cases t <;> exact some_gt (by simp only [rankOf, Sign.apply]; omega)
  | zero s =>
    cases hb' : parts b with
    | notANumber => simp [hb', UnpackedFloat.isNaN] at hb
    | infinity t => cases t <;> rfl
    | zero t => rfl
    | finite t n f hn =>
      obtain ⟨hpos, hlt⟩ := rankOf_finite_bounds hn (canonical_parts hb')
      cases t
      · exact some_gt (by simp only [rankOf, Sign.apply]; omega)
      · exact some_lt (by simp only [rankOf, Sign.apply]; omega)
  | finite s m e hm =>
    obtain ⟨hpos, hlt⟩ := rankOf_finite_bounds hm (canonical_parts ha')
    cases hb' : parts b with
    | notANumber => simp [hb', UnpackedFloat.isNaN] at hb
    | infinity t =>
      cases t
      · cases s <;> exact some_gt (by simp only [rankOf, Sign.apply]; omega)
      · cases s <;> exact some_lt (by simp only [rankOf, Sign.apply]; omega)
    | zero t =>
      cases s
      · exact some_lt (by simp only [rankOf, Sign.apply]; omega)
      · exact some_gt (by simp only [rankOf, Sign.apply]; omega)
    | finite t n f hn => exact compare_finite (canonical_parts ha') (canonical_parts hb')

theorem isNaN_of_compare_eq_some {a b : Float} {o : Ordering}
    (h : UnpackedFloat.compare (parts a) (parts b) = some o) :
    a.isNaN = false ∧ b.isNaN = false := by
  rw [isNaN_eq, isNaN_eq]
  cases ha : parts a with
  | notANumber => simp [ha, UnpackedFloat.compare] at h
  | _ =>
    cases hb : parts b with
    | notANumber => simp [ha, hb, UnpackedFloat.compare] at h
    | _ => exact ⟨rfl, rfl⟩

theorem le_iff {a b : Float} : a ≤ b ↔ a.isNaN = false ∧ b.isNaN = false ∧ rank a ≤ rank b := by
  have hle : a ≤ b ↔ (UnpackedFloat.compare (parts a) (parts b)).any (·.isLE) = true :=
    decide_eq_true_iff
  rw [hle]
  constructor
  · intro h
    cases hcompare : UnpackedFloat.compare (parts a) (parts b) with
    | none => simp [hcompare] at h
    | some o =>
      obtain ⟨ha, hb⟩ := isNaN_of_compare_eq_some hcompare
      rw [compare_eq ha hb] at h
      exact ⟨ha, hb, Int.isLE_compare.mp h⟩
  · rintro ⟨ha, hb, h⟩
    rw [compare_eq ha hb]
    exact Int.isLE_compare.mpr h

theorem lt_iff {a b : Float} : a < b ↔ a.isNaN = false ∧ b.isNaN = false ∧ rank a < rank b := by
  have hlt : a < b ↔ (UnpackedFloat.compare (parts a) (parts b) == some .lt) = true :=
    decide_eq_true_iff
  rw [hlt, beq_iff_eq]
  constructor
  · intro h
    obtain ⟨ha, hb⟩ := isNaN_of_compare_eq_some h
    rw [compare_eq ha hb, Option.some.injEq, Int.compare_eq_lt] at h
    exact ⟨ha, hb, h⟩
  · rintro ⟨ha, hb, h⟩
    rw [compare_eq ha hb, Int.compare_eq_lt.mpr h]

theorem le_trans {a b c : Float} (hab : a ≤ b) (hbc : b ≤ c) : a ≤ c := by
  obtain ⟨ha, -, hab⟩ := le_iff.mp hab
  obtain ⟨-, hc, hbc⟩ := le_iff.mp hbc
  exact le_iff.mpr ⟨ha, hc, Int.le_trans hab hbc⟩

theorem le_of_lt {a b : Float} (h : a < b) : a ≤ b := by
  obtain ⟨ha, hb, hlt⟩ := lt_iff.mp h
  exact le_iff.mpr ⟨ha, hb, Int.le_of_lt hlt⟩

theorem lt_of_lt_of_le {a b c : Float} (hab : a < b) (hbc : b ≤ c) : a < c := by
  obtain ⟨ha, -, hab⟩ := lt_iff.mp hab
  obtain ⟨-, hc, hbc⟩ := le_iff.mp hbc
  exact lt_iff.mpr ⟨ha, hc, Int.lt_of_lt_of_le hab hbc⟩

theorem not_lt_self (a : Float) : ¬ a < a := fun h => Int.lt_irrefl _ (lt_iff.mp h).2.2

theorem le_refl {a : Float} (h : a.isNaN = false) : a ≤ a := le_iff.mpr ⟨h, h, Int.le_refl _⟩

theorem isNaN_zero : (Scalar.zero : Float).isNaN = false := rfl

section
variable {x : Float}

theorem max_of_number (hx : x.isNaN = false) (y : Float) :
    Scalar.max x y = if x < y then y else x := by
  change (if x.isNaN then y else _) = _
  rw [hx]
  rfl

theorem min_of_number (hx : x.isNaN = false) (y : Float) :
    Scalar.min x y = if y < x then y else x := by
  change (if x.isNaN then y else _) = _
  rw [hx]
  rfl

theorem max_spec (hx : x.isNaN = false) (y : Float) :
    (Scalar.max x y).isNaN = false ∧ x ≤ Scalar.max x y ∧
      (y.isNaN = false → y ≤ Scalar.max x y) := by
  rw [max_of_number hx]
  split
  · rename_i h
    obtain ⟨-, hy, hlt⟩ := lt_iff.mp h
    exact ⟨hy, le_iff.mpr ⟨hx, hy, by omega⟩, fun _ => le_refl hy⟩
  · rename_i h
    refine ⟨hx, le_refl hx, fun hy => le_iff.mpr ⟨hy, hx, Int.not_lt.mp fun hlt => ?_⟩⟩
    exact h (lt_iff.mpr ⟨hx, hy, hlt⟩)

theorem min_spec (hx : x.isNaN = false) (y : Float) :
    (Scalar.min x y).isNaN = false ∧ Scalar.min x y ≤ x ∧
      (y.isNaN = false → Scalar.min x y ≤ y) ∧ (Scalar.min x y = x ∨ Scalar.min x y = y) := by
  rw [min_of_number hx]
  split
  · rename_i h
    obtain ⟨hy, -, hlt⟩ := lt_iff.mp h
    exact ⟨hy, le_iff.mpr ⟨hy, hx, by omega⟩, fun _ => le_refl hy, .inr rfl⟩
  · rename_i h
    refine ⟨hx, le_refl hx, fun hy => le_iff.mpr ⟨hx, hy, Int.not_lt.mp fun hlt => ?_⟩, .inl rfl⟩
    exact h (lt_iff.mpr ⟨hy, hx, hlt⟩)

theorem foldl_max_spec (hx : x.isNaN = false) (ys : List Float) :
    (ys.foldl Scalar.max x).isNaN = false ∧ x ≤ ys.foldl Scalar.max x ∧
      ∀ y ∈ ys, y.isNaN = false → y ≤ ys.foldl Scalar.max x := by
  induction ys generalizing x with
  | nil => exact ⟨hx, le_refl hx, by simp⟩
  | cons y ys ih =>
    obtain ⟨hm, hxm, hym⟩ := max_spec hx y
    obtain ⟨hr, hmr, hys⟩ := ih hm
    exact ⟨hr, le_trans hxm hmr, List.forall_mem_cons.mpr ⟨fun hy => le_trans (hym hy) hmr, hys⟩⟩

theorem foldl_min_spec (hx : x.isNaN = false) (ys : List Float) :
    (ys.foldl Scalar.min x).isNaN = false ∧ ys.foldl Scalar.min x ≤ x ∧
      (∀ y ∈ ys, y.isNaN = false → ys.foldl Scalar.min x ≤ y) ∧
      (ys.foldl Scalar.min x = x ∨ ys.foldl Scalar.min x ∈ ys) := by
  induction ys generalizing x with
  | nil => exact ⟨hx, le_refl hx, by simp, .inl rfl⟩
  | cons y ys ih =>
    obtain ⟨hm, hmx, hmy, hone⟩ := min_spec hx y
    obtain ⟨hr, hrm, hys, hmem⟩ := ih hm
    refine ⟨hr, le_trans hrm hmx,
      List.forall_mem_cons.mpr ⟨fun hy => le_trans hrm (hmy hy), hys⟩, ?_⟩
    rcases hmem with hmem | hmem
    · rw [List.foldl_cons, hmem, List.mem_cons]
      exact hone.imp_right .inl
    · exact .inr (List.mem_cons_of_mem y hmem)

end

end SweepReport.Double
