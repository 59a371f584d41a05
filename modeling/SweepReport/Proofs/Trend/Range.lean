import SweepReport.Proofs.Trend.Exact

/-! The range of samples in exact arithmetic. No sample lies outside it, and the map of a fit takes it
to `[-1, 1]`. -/
namespace SweepReport

/-- A range that holds some numbers. -/
structure Spans (range : ℚ × ℚ) (xs : List ℚ) : Prop where
  ordered : range.1 ≤ range.2
  holds : ∀ x ∈ xs, range.1 ≤ x ∧ x ≤ range.2

/-- The first range lies in the second. -/
def Within (inner outer : ℚ × ℚ) : Prop := outer.1 ≤ inner.1 ∧ inner.2 ≤ outer.2

section
variable {range inner outer : ℚ × ℚ} {xs ys : List ℚ}

theorem Spans.widen (h : Spans inner xs) (hwithin : Within inner outer) : Spans outer xs where
  ordered := hwithin.1.trans (h.ordered.trans hwithin.2)
  holds x hx := ⟨hwithin.1.trans (h.holds x hx).1, (h.holds x hx).2.trans hwithin.2⟩

theorem Spans.append (hxs : Spans range xs) (hys : Spans range ys) : Spans range (xs ++ ys) :=
  ⟨hxs.ordered, List.forall_mem_append.mpr ⟨hxs.holds, hys.holds⟩⟩

end

section
variable [Precision]

theorem spans_inOrder (x y : ℚ) : Spans (inOrder x y) [x, y] := by
  simp only [inOrder, lt_exact, decide_eq_true_eq]
  split
  · rename_i h
    exact ⟨h.le, by simp [h.le]⟩
  · rename_i h
    exact ⟨not_lt.mp h, by simp [not_lt.mp h]⟩

/-- Each pair widens the range so far just enough to hold it. -/
theorem rangeFrom_spans (least greatest : ℚ) (xs : List ℚ) (h : least ≤ greatest) :
    Within (least, greatest) (rangeFrom least greatest xs) ∧
      Spans (rangeFrom least greatest xs) xs := by
  fun_induction rangeFrom least greatest xs with
  | case1 least greatest => exact ⟨⟨le_rfl, le_rfl⟩, h, by simp⟩
  | case2 least greatest x hx =>
    rw [lt_exact, decide_eq_true_eq] at hx
    exact ⟨⟨hx.le, le_rfl⟩, hx.le.trans h, by simp [hx.le.trans h]⟩
  | case3 least greatest x hx hx' =>
    simp only [lt_exact, decide_eq_true_eq, not_lt] at hx hx'
    exact ⟨⟨le_rfl, le_rfl⟩, h, by simp [hx, hx'.le]⟩
  | case4 least greatest x hx hx' =>
    simp only [lt_exact, decide_eq_true_eq, not_lt] at hx hx'
    exact ⟨⟨le_rfl, hx'⟩, h.trans hx', by simp [h.trans hx']⟩
  | case5 least greatest x y rest small large hpair ih =>
    have hnew := spans_inOrder x y
    rw [hpair] at hnew
    simp only [lt_exact, decide_eq_true_eq] at ih ⊢
    obtain ⟨hleast, hsmall⟩ : (if small < least then small else least) ≤ least ∧
        (if small < least then small else least) ≤ small := by
      split <;> grind
    obtain ⟨hgreatest, hlarge⟩ : greatest ≤ (if large < greatest then greatest else large) ∧
        large ≤ (if large < greatest then greatest else large) := by
      split <;> grind
    obtain ⟨hwithin, hrest⟩ := ih (hleast.trans (h.trans hgreatest))
    have hpair := hnew.widen ⟨hwithin.1.trans hsmall, hlarge.trans hwithin.2⟩
    exact ⟨⟨hwithin.1.trans hleast, hgreatest.trans hwithin.2⟩, hpair.append hrest⟩

theorem range?_spans {xs : List ℚ} {least greatest : ℚ} (h : range? xs = some (least, greatest)) :
    Spans (least, greatest) xs := by
  unfold range? at h
  split at h
  · contradiction
  · cases h
    exact ⟨le_rfl, by simp⟩
  · rename_i x y rest
    have hnew := spans_inOrder x y
    generalize inOrder x y = pair at h hnew
    obtain ⟨hwithin, hrest⟩ := rangeFrom_spans pair.1 pair.2 rest hnew.ordered
    rw [← Option.some.inj h]
    exact (hnew.widen hwithin).append hrest

theorem mapped_mem_unit {least greatest x : ℚ} (hleast : least ≤ x) (hgreatest : x ≤ greatest) :
    -1 ≤ (x - midpoint least greatest) / halfWidth least greatest ∧
      (x - midpoint least greatest) / halfWidth least greatest ≤ 1 := by
  simp only [midpoint, halfWidth, lt_exact, decide_eq_true_eq, two_exact, one_exact]
  split
  · rename_i hlt
    have hpos : 0 < (greatest - least) / 2 := div_pos (sub_pos.mpr hlt) two_pos
    rw [le_div_iff₀ hpos, div_le_iff₀ hpos]
    constructor <;> linarith
  · constructor <;> linarith

end

end SweepReport
