import Mathlib.Data.List.Pairwise
import SweepReport.Proofs.Builder.Finish

/-! The order of the calls. Calls about different slots may come in any order: all of them are taken
in one order when they are in another, and the builder is the same in the end. -/
namespace SweepReport
variable {α : Type}

theorem Slots.ext_get {r s : Slots α} (h : ∀ metric, r.get metric = s.get metric) : r = s := by
  have hr : r.runtime = s.runtime := h .runtime
  have ht : r.throughput = s.throughput := h .throughput
  cases r
  cases s
  simp_all

namespace TableBuilder

theorem allRecorded_iff {as : List (Arrival α)} :
    (recordAll .empty as).2 = as.map (fun _ => .ok ()) ↔ Separate as := by
  rw [reflects_empty.all_ok_iff]
  simp [Reported]

theorem separate_perm {as cs : List (Arrival α)} (h : as.Perm cs) : Separate as ↔ Separate cs := by
  refine h.pairwise_iff ?_
  intro a c hne heq
  exact hne ⟨heq.1.symm, heq.2.symm⟩

theorem reported_perm {as cs : List (Arrival α)} (h : as.Perm cs) (l : Label) (metric : Metric) :
    Reported as l metric ↔ Reported cs l metric := by
  simp only [Reported, h.mem_iff]

theorem Separate.eq_of_slot {as : List (Arrival α)} (h : Separate as) {a c : Arrival α}
    (ha : a ∈ as) (hc : c ∈ as) (hl : a.label = c.label) (hm : a.metric = c.metric) : a = c := by
  by_contra hne
  have : Std.Symm fun a c : Arrival α => ¬ (a.label = c.label ∧ a.metric = c.metric) :=
    ⟨fun a c hac hca => hac ⟨hca.1.symm, hca.2.symm⟩⟩
  exact List.Pairwise.forall h ha hc hne ⟨hl, hm⟩

theorem firstValue_perm {as cs : List (Arrival α)} (h : as.Perm cs) (hs : Separate as) (l : Label)
    (metric : Metric) : firstValue as l metric = firstValue cs l metric := by
  cases has : firstValue as l metric with
  | none =>
    have hnot := firstValue_eq_none_iff.mp has
    rw [reported_perm h] at hnot
    exact (firstValue_eq_none_iff.mpr hnot).symm
  | some v =>
    have hcs : Reported cs l metric := by
      rw [← reported_perm h, ← isSome_firstValue_iff, has]
      rfl
    obtain ⟨w, hw⟩ := Option.isSome_iff_exists.mp (isSome_firstValue_iff.mpr hcs)
    obtain ⟨a, ha, hal, ham, hav⟩ := exists_of_firstValue has
    obtain ⟨c, hc, hcl, hcm, hcv⟩ := exists_of_firstValue hw
    have hac : a = c :=
      hs.eq_of_slot ha (h.mem_iff.mpr hc) (hal.trans hcl.symm) (ham.trans hcm.symm)
    rw [hw, ← hav, ← hcv, hac]

/-- The first values determine the builder: no entry is without one, so none can hide. -/
theorem Reflects.unique {b c : TableBuilder α} {as cs : List (Arrival α)} (hb : Reflects b as)
    (hc : Reflects c cs) (h : ∀ l metric, firstValue as l metric = firstValue cs l metric) :
    b = c := by
  have hoccurs (l : Label) : Occurs as l ↔ Occurs cs l := by
    simp only [occurs_iff, ← isSome_firstValue_iff, h]
  refine LabelMap.ext_get? fun l => ?_
  cases hbl : b.get? l with
  | none =>
    cases hcl : c.get? l with
    | none => rfl
    | some s =>
      obtain ⟨r, hr⟩ := (hb.entry_iff l).mpr ((hoccurs l).mpr ((hc.entry_iff l).mp ⟨s, hcl⟩))
      simp [hbl] at hr
  | some r =>
    obtain ⟨s, hcl⟩ := (hc.entry_iff l).mpr ((hoccurs l).mp ((hb.entry_iff l).mp ⟨r, hbl⟩))
    have hrs : r = s := Slots.ext_get fun metric => by
      rw [hb.get_eq hbl, hc.get_eq hcl, h]
    rw [hcl, hrs]

theorem ofArrivals_perm {as cs : List (Arrival α)} (h : as.Perm cs) (hs : Separate as) :
    ofArrivals as = ofArrivals cs :=
  (reflects_ofArrivals as).unique (reflects_ofArrivals cs) (firstValue_perm h hs)

/-- All calls succeed in one order when they do in another, and then both orders finish with the same
table, or with the same gap. -/
theorem merge_any_order {as cs : List (Arrival α)} (h : as.Perm cs) :
    ((recordAll .empty as).2 = as.map (fun _ => .ok ()) ↔
      (recordAll .empty cs).2 = cs.map (fun _ => .ok ())) ∧
    ((recordAll .empty as).2 = as.map (fun _ => .ok ()) →
      toTable (recordAll .empty as).1 = toTable (recordAll .empty cs).1) := by
  constructor
  · rw [allRecorded_iff, allRecorded_iff, separate_perm h]
  · intro hall
    have hbuilder : (recordAll .empty as).1 = (recordAll .empty cs).1 :=
      ofArrivals_perm h (allRecorded_iff.mp hall)
    rw [hbuilder]

def runtimeCall : Arrival Float := ⟨.of "2" 8, .runtime, 1.5, ⟨"a"⟩⟩

def throughputCall : Arrival Float := ⟨.of "2" 8, .throughput, 100, ⟨"b"⟩⟩

/-- A configuration that lacks its throughput in any order. -/
def loneCall : Arrival Float := ⟨.of "4" 16, .runtime, 3, ⟨"c"⟩⟩

theorem calls_merge_backwards :
    [runtimeCall, throughputCall, loneCall].Perm [loneCall, throughputCall, runtimeCall] ∧
    (recordAll .empty [runtimeCall, throughputCall, loneCall]).2 = [.ok (), .ok (), .ok ()] ∧
    (recordAll .empty [loneCall, throughputCall, runtimeCall]).2 = [.ok (), .ok (), .ok ()] ∧
    toTable (recordAll .empty [runtimeCall, throughputCall, loneCall]).1 =
      toTable (recordAll .empty [loneCall, throughputCall, runtimeCall]).1 := by
  have hperm : [runtimeCall, throughputCall, loneCall].Perm
      [loneCall, throughputCall, runtimeCall] :=
    (List.reverse_perm [runtimeCall, throughputCall, loneCall]).symm
  have hall : (recordAll .empty [runtimeCall, throughputCall, loneCall]).2 =
      [runtimeCall, throughputCall, loneCall].map fun _ => .ok () :=
    allRecorded_iff.mpr (by simp [Separate, runtimeCall, throughputCall, loneCall, Label.of])
  obtain ⟨hiff, htable⟩ := merge_any_order hperm
  exact ⟨hperm, hall, hiff.mp hall, htable hall⟩

end TableBuilder
end SweepReport
