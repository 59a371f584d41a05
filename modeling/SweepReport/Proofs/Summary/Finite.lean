import SweepReport.Proofs.Double.Arithmetic
import SweepReport.Proofs.Samples
import SweepReport.Proofs.Summary.Rows

/-! When a mean is finite: when every row's value is, and no sum of the first rows is too great. The
only divisor that can be zero is the time of an iteration, under a record count. -/
namespace SweepReport
open Double

/-- What the metric divides by, row by row, and the number of rows at last. -/
def divisors (metric : Metric) (samples : List (Sample Float)) : List Float :=
  samples.flatMap (fun s => [Scalar.ofWord s.iterations, Scalar.ofNat nanosPerMilli] ++
    match metric with
    | .runtime => []
    | .throughput => [s.milliseconds]) ++ [Scalar.ofNat samples.length]

/-- The values of the rows are finite, and so are the sums of the first of them. -/
def StaysFinite (metric : Metric) (samples : List (Sample Float)) : Prop :=
  ∃ values, measures metric samples = .ok values ∧ (∀ x ∈ values, x.isFinite) ∧
    ∀ part, part <+: values → (part.foldl (· + ·) 0).isFinite

/-- A sum is finite when all numbers are and every sum on the way is. -/
theorem isFinite_sum_iff {xs : List Float} :
    (xs.foldl (· + ·) 0).isFinite ↔
      (∀ x ∈ xs, x.isFinite) ∧ ∀ part, part <+: xs → (part.foldl (· + ·) 0).isFinite := by
  constructor
  · intro h
    refine ⟨(isFinite_foldl_of h).2, ?_⟩
    rintro part ⟨rest, rfl⟩
    rw [List.foldl_append] at h
    exact (isFinite_foldl_of h).1
  · exact fun h => h.2 xs (List.prefix_refl xs)

theorem isFinite_mean_iff {xs : List Float} {v : Float} (h : mean? xs = some v) :
    v.isFinite ↔ (xs.foldl (· + ·) 0).isFinite := by
  unfold mean? at h
  split at h
  · contradiction
  · rename_i hne
    rw [Option.some.injEq] at h
    subst h
    have hpos : 0 < xs.length := by
      cases xs with
      | nil => simp at hne
      | cons => simp
    exact ⟨fun hv => (isFinite_of_div hv).1, fun hsum => isFinite_div_ofNat hsum hpos⟩

theorem isFinite_summarize_iff {samples : List (Sample Float)} {metric : Metric} {path : Path}
    {v : Float} (h : summarize samples metric path = .ok v) :
    v.isFinite ↔ StaysFinite metric samples := by
  obtain ⟨values, hm, hv⟩ := summarize_eq_ok_iff.mp h
  rw [isFinite_mean_iff hv, isFinite_sum_iff]
  constructor
  · exact fun hf => ⟨values, hm, hf⟩
  · rintro ⟨others, ho, hf⟩
    rw [hm, Except.ok.injEq] at ho
    exact ho ▸ hf

theorem toNat_pos {w : UInt64} (h : w ≠ 0) : 0 < w.toNat := by
  rw [Nat.pos_iff_ne_zero, Ne, ← UInt64.toNat_zero, UInt64.toNat_inj]
  exact h

/-- The time of an iteration is finite when the time of all is. -/
theorem isFinite_milliseconds_iff {s : Sample Float} (h : s.iterations ≠ 0) :
    s.milliseconds.isFinite ↔ s.elapsed.isFinite := by
  constructor
  · exact fun hf => (isFinite_of_div (isFinite_of_div hf).1).1
  · exact fun hf => isFinite_div_ofNat (isFinite_div_ofNat hf (toNat_pos h)) (by decide)

/-- A rate is finite only where the count is and there is a time to divide it by. -/
theorem exists_of_isFinite_rates {row : Nat} {samples : List (Sample Float)} {values : List Float}
    (h : rates row samples = .ok values) (hf : ∀ x ∈ values, x.isFinite) :
    ∀ s ∈ samples, (∃ n, s.records = some n ∧ n.isFinite) ∧ s.milliseconds.isNaN = false ∧
      ¬ s.milliseconds == 0 := by
  induction samples generalizing row values with
  | nil => simp
  | cons s ss ih =>
    obtain ⟨n, rest, hs, hrest, rfl⟩ := rates_cons_eq_ok_iff.mp h
    obtain ⟨hfirst, hfinite⟩ := List.forall_mem_cons.mp hf
    obtain ⟨hn, hnan, hzero⟩ := isFinite_of_div hfirst
    exact List.forall_mem_cons.mpr ⟨⟨⟨n, hs, hn⟩, hnan, hzero⟩, ih hrest hfinite⟩

/-- A divisor that is zero is the time of an iteration. -/
theorem zero_divisor {metric : Metric} {samples : List (Sample Float)} (hne : samples ≠ [])
    (hiterations : ∀ s ∈ samples, s.iterations ≠ 0) {d : Float} (hd : d ∈ divisors metric samples)
    (hzero : d == 0) : metric = .throughput ∧ ∃ s ∈ samples, d = s.milliseconds := by
  unfold divisors at hd
  rw [List.mem_append, List.mem_flatMap, List.mem_singleton] at hd
  rcases hd with ⟨s, hs, hd⟩ | rfl
  · rw [List.mem_append, List.mem_cons, List.mem_singleton] at hd
    rcases hd with (rfl | rfl) | hd
    · exact absurd hzero (ofNat_ne_zero (toNat_pos (hiterations s hs)))
    · exact absurd hzero (ofNat_ne_zero (by decide))
    · cases metric with
      | runtime => simp at hd
      | throughput => exact ⟨rfl, s, hs, List.mem_singleton.mp hd⟩
  · exact absurd hzero (ofNat_ne_zero (List.length_pos_iff.mpr hne))

end SweepReport
