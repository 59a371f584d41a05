import SweepReport.Label.Order
import SweepReport.Proofs.Numeral.Word

/-! The order of labels. Thread counts stand in one line, whatever their text: those that spell words
first and by value, then all others, and equal values and other texts by their characters. Labels go
by thread count, then by batch, so however a list of them is shuffled, it is sorted the same way. -/
namespace SweepReport
open Std Numeral

/-- A comparison that puts things in one line. Only a thing itself is level with it, turning two around
turns the answer around, and what comes before something comes before all that follows that. -/
structure InLine {α : Type} (cmp : α → α → Ordering) : Prop where
  eq_iff : ∀ a b, cmp a b = .eq ↔ a = b
  swap : ∀ a b, cmp b a = (cmp a b).swap
  lt_trans : ∀ a b c, cmp a b = .lt → cmp b c = .lt → cmp a c = .lt
  isLE_trans : ∀ a b c, (cmp a b).isLE → (cmp b c).isLE → (cmp a c).isLE

theorem inLine_compare (α : Type) [Ord α] [TransOrd α] [LawfulEqOrd α] :
    InLine (compare : α → α → Ordering) where
  eq_iff _ _ := LawfulEqOrd.compare_eq_iff_eq
  swap _ _ := OrientedOrd.eq_swap
  lt_trans _ _ _ := TransCmp.lt_trans
  isLE_trans _ _ _ := TransCmp.isLE_trans

namespace ThreadCount

/-- How thread counts compare by what their texts spell. -/
structure ByNumber (cmp : ThreadCount → ThreadCount → Ordering) : Prop where
  numbers : ∀ a b v w, Spells a.text.toList v → Spells b.text.toList w →
    cmp a b = (compare v w).then (compare a.text b.text)
  number_first : ∀ a b v, Spells a.text.toList v → (∀ w, ¬ Spells b.text.toList w) →
    cmp a b = .lt
  texts : ∀ a b, (∀ v, ¬ Spells a.text.toList v) → (∀ w, ¬ Spells b.text.toList w) →
    cmp a b = compare a.text b.text

theorem compare_eq (a b : ThreadCount) :
    compare a b = (compare a.rank b.rank).then (compare a.text b.text) := rfl

theorem number?_eq_some_iff {t : ThreadCount} {w : UInt64} :
    t.number? = some w ↔ Spells t.text.toList w := word?_eq_some_iff

theorem rank_of_spells {t : ThreadCount} {w : UInt64} (h : Spells t.text.toList w) :
    t.rank = w.toNat := by
  rw [rank, number?_eq_some_iff.mpr h]
  rfl

theorem rank_of_not_spells {t : ThreadCount} (h : ∀ w, ¬ Spells t.text.toList w) :
    t.rank = wordSize := by
  have hnone : t.number? = none :=
    Option.eq_none_iff_forall_ne_some.mpr fun w hw => h w (number?_eq_some_iff.mp hw)
  rw [rank, hnone]
  rfl

theorem compare_toNat (v w : UInt64) : compare v.toNat w.toNat = compare v w := by
  cases h : compare v w with
  | lt => exact Nat.compare_eq_lt.mpr (UInt64.lt_iff_toNat_lt.mp (Std.compare_eq_lt.mp h))
  | eq => exact Nat.compare_eq_eq.mpr (congrArg _ (LawfulEqOrd.eq_of_compare h))
  | gt => exact Nat.compare_eq_gt.mpr (UInt64.lt_iff_toNat_lt.mp (Std.compare_eq_gt.mp h))

theorem byNumber_compare : ByNumber compare where
  numbers a b v w ha hb := by
    rw [compare_eq, rank_of_spells ha, rank_of_spells hb, compare_toNat]
  number_first a b v ha hb := by
    have hlt : v.toNat < wordSize := v.toNat_lt
    rw [compare_eq, rank_of_spells ha, rank_of_not_spells hb, Nat.compare_eq_lt.mpr hlt]
    rfl
  texts a b ha hb := by
    rw [compare_eq, rank_of_not_spells ha, rank_of_not_spells hb, Nat.compare_eq_eq.mpr rfl]
    rfl

end ThreadCount

namespace Label

theorem perm_sort (ls : List Label) : (sort ls).Perm ls := List.mergeSort_perm ls _

theorem compare_total (l k : Label) : ((compare l k).isLE || (compare k l).isLE) = true := by
  rw [OrientedOrd.eq_swap (a := k)]
  cases compare l k <;> rfl

def Sorted (ls : List Label) : Prop := ls.Pairwise fun l k => (compare l k).isLE = true

instance (ls : List Label) : Decidable (Sorted ls) :=
  inferInstanceAs (Decidable (ls.Pairwise fun l k => (compare l k).isLE = true))

theorem sorted_sort (ls : List Label) : Sorted (sort ls) :=
  List.pairwise_mergeSort (fun _ _ _ => TransCmp.isLE_trans) compare_total ls

theorem eq_sort {ls ks : List Label} (hperm : ks.Perm ls) (hks : Sorted ks) : ks = sort ls := by
  refine List.Perm.eq_of_pairwise (fun l k _ _ hlk hkl => ?_) hks (sorted_sort ls)
    (hperm.trans (perm_sort ls).symm)
  exact LawfulEqOrd.eq_of_compare (OrientedCmp.isLE_antisymm hlk hkl)

theorem sort_perm {ls ks : List Label} (hperm : ks.Perm ls) : sort ks = sort ls :=
  eq_sort ((perm_sort ks).trans hperm) (sorted_sort ks)

end Label

/-- Thread counts stand in one line where only equal texts are level, and go by number where they are
numbers. Labels stand in one line too, by thread count and then by batch. A list of labels has one
sorted arrangement, and sorting any arrangement of it gives that. -/
theorem labels_stand_in_line :
    InLine (compare : ThreadCount → ThreadCount → Ordering) ∧
    (∀ a b : ThreadCount, compare a b = .eq ↔ a.text = b.text) ∧
    (∀ (t : ThreadCount) w, t.number? = some w ↔ Spells t.text.toList w) ∧
    ThreadCount.ByNumber compare ∧
    InLine (compare : Label → Label → Ordering) ∧
    (∀ l k : Label, compare l k = (compare l.threads k.threads).then (compare l.batch k.batch)) ∧
    ∀ ls : List Label, (Label.sort ls).Perm ls ∧ Label.Sorted (Label.sort ls) ∧
      ∀ ks, ks.Perm ls → Label.sort ks = Label.sort ls ∧
        (Label.Sorted ks → ks = Label.sort ls) := by
  have htext (a b : ThreadCount) : compare a b = .eq ↔ a.text = b.text := by
    rw [LawfulEqOrd.compare_eq_iff_eq, ThreadCount.mk.injEq]
  refine ⟨inLine_compare ThreadCount, htext, fun _ _ => ThreadCount.number?_eq_some_iff,
    ThreadCount.byNumber_compare, inLine_compare Label, fun _ _ => rfl,
    fun ls => ⟨Label.perm_sort ls, Label.sorted_sort ls, fun ks hperm => ?_⟩⟩
  exact ⟨Label.sort_perm hperm, Label.eq_sort hperm⟩

/-- By their characters these three counts would go in a ring, as `10` is below `1a` and `1a` is
below `9`. -/
theorem counts_go_by_number :
    compare (ThreadCount.mk "9") ⟨"10"⟩ = .lt ∧ compare (ThreadCount.mk "10") ⟨"1a"⟩ = .lt ∧
    compare (ThreadCount.mk "9") ⟨"1a"⟩ = .lt ∧
    Label.sort [.of "1a" 8, .of "10" 8, .of "9" 8] = [.of "9" 8, .of "10" 8, .of "1a" 8] := by
  obtain ⟨hline, -, -, hnumber, -, -, hsort⟩ := labels_stand_in_line
  have nine : Spells "9".toList 9 := ⟨['9'], .inl rfl, by decide, List.all_eq_true.mp rfl, by decide⟩
  have ten : Spells "10".toList 10 :=
    ⟨['1', '0'], .inl rfl, by decide, List.all_eq_true.mp rfl, by decide⟩
  have noNumber (w : UInt64) : ¬ Spells "1a".toList w := fun h => by
    have hread := readWord_eq_ok_iff.mpr h
    have hbad : readWord 10 "1a".toList = .error .badDigit := by decide
    rw [hbad] at hread
    contradiction
  have hlow : compare (ThreadCount.mk "9") ⟨"10"⟩ = .lt := by
    rw [hnumber.numbers ⟨"9"⟩ ⟨"10"⟩ 9 10 nine ten]
    decide
  have hhigh : compare (ThreadCount.mk "10") ⟨"1a"⟩ = .lt :=
    hnumber.number_first ⟨"10"⟩ ⟨"1a"⟩ 10 ten noNumber
  refine ⟨hlow, hhigh, hline.lt_trans _ _ _ hlow hhigh, ?_⟩
  have hperm : [Label.of "9" 8, .of "10" 8, .of "1a" 8].Perm
      [.of "1a" 8, .of "10" 8, .of "9" 8] := by decide
  refine (((hsort _).2.2 _ hperm).2 ?_).symm
  decide +kernel

end SweepReport
