import SweepReport.Label.Order

/-! Values kept by label, in the order of the labels. As the order of entries is fixed, two maps
with the same values are equal. -/
namespace SweepReport
open Std

def Ascending {β : Type} (es : List (Label × β)) : Prop := es.Pairwise fun a b => a.1 < b.1

structure LabelMap (β : Type) where
  entries : List (Label × β)
  ascending : Ascending entries

namespace LabelMap
variable {β γ : Type}

def lookup (l : Label) : List (Label × β) → Option β
  | [] => none
  | (k, v) :: es => if l = k then some v else lookup l es

def place (l : Label) (v : β) : List (Label × β) → List (Label × β)
  | [] => [(l, v)]
  | (k, w) :: es =>
    match compare l k with
    | .lt => (l, v) :: (k, w) :: es
    | .eq => (l, v) :: es
    | .gt => (k, w) :: place l v es

theorem mem_place {l : Label} {v : β} {es : List (Label × β)} {e : Label × β}
    (h : e ∈ place l v es) : e = (l, v) ∨ e ∈ es := by
  induction es with
  | nil => simpa [place] using h
  | cons d es ih =>
    obtain ⟨k, w⟩ := d
    unfold place at h
    split at h <;> grind

theorem ascending_place (l : Label) (v : β) {es : List (Label × β)} (h : Ascending es) :
    Ascending (place l v es) := by
  induction es with
  | nil => simp [place, Ascending]
  | cons d es ih =>
    obtain ⟨k, w⟩ := d
    obtain ⟨hk, hes⟩ := List.pairwise_cons.mp h
    unfold place
    split <;> rename_i hc
    · refine List.pairwise_cons.mpr ⟨fun e he => ?_, h⟩
      rcases List.mem_cons.mp he with rfl | he
      · exact hc
      · exact TransCmp.lt_trans hc (hk e he)
    · cases LawfulEqOrd.eq_of_compare hc
      exact List.pairwise_cons.mpr ⟨hk, hes⟩
    · refine List.pairwise_cons.mpr ⟨fun e he => ?_, ih hes⟩
      rcases mem_place he with rfl | he
      · exact OrientedCmp.gt_iff_lt.mp hc
      · exact hk e he

def empty : LabelMap β := ⟨[], List.Pairwise.nil⟩

def get? (m : LabelMap β) (l : Label) : Option β := lookup l m.entries

def insert (m : LabelMap β) (l : Label) (v : β) : LabelMap β :=
  ⟨place l v m.entries, ascending_place l v m.ascending⟩

@[simp] theorem get?_empty (k : Label) : (empty : LabelMap β).get? k = none := rfl

theorem lookup_place (l k : Label) (v : β) (es : List (Label × β)) :
    lookup k (place l v es) = if k = l then some v else lookup k es := by
  induction es with
  | nil => simp [place, lookup]
  | cons d es ih =>
    obtain ⟨j, w⟩ := d
    unfold place
    split <;> rename_i hc
    · simp [lookup]
    · cases LawfulEqOrd.eq_of_compare hc
      simp only [lookup]
      split <;> rfl
    · have hj : l ≠ j := by
        rintro rfl
        simp [ReflCmp.compare_self] at hc
      simp only [lookup, ih]
      grind

/-- Only the label that is given a value reads another than before. -/
theorem get?_insert (m : LabelMap β) (l k : Label) (v : β) :
    (m.insert l v).get? k = if k = l then some v else m.get? k :=
  lookup_place l k v m.entries

theorem not_lt_self (l : Label) : ¬ l < l := fun h => by
  have h : compare l l = .lt := h
  simp [ReflCmp.compare_self] at h

theorem lookup_eq_none {k : Label} {es : List (Label × β)} (h : ∀ e ∈ es, k < e.1) :
    lookup k es = none := by
  induction es with
  | nil => rfl
  | cons d es ih =>
    have hne : k ≠ d.1 := fun he => not_lt_self k (he ▸ h d List.mem_cons_self)
    simp only [lookup, if_neg hne]
    exact ih fun e he => h e (List.mem_cons_of_mem _ he)

theorem lt_or_eq_or_gt (k l : Label) : k < l ∨ k = l ∨ l < k := by
  cases h : compare k l with
  | lt => exact .inl h
  | eq => exact .inr (.inl (LawfulEqOrd.eq_of_compare h))
  | gt => exact .inr (.inr (OrientedCmp.gt_iff_lt.mp h))

theorem lookup_lt_head {k l : Label} {v : β} {es : List (Label × β)} (h : Ascending ((l, v) :: es))
    (hk : k < l) : lookup k ((l, v) :: es) = none :=
  lookup_eq_none fun e he => by
    rcases List.mem_cons.mp he with rfl | he
    · exact hk
    · exact TransCmp.lt_trans hk ((List.pairwise_cons.mp h).1 e he)

theorem entries_unique {es fs : List (Label × β)} (he : Ascending es) (hf : Ascending fs)
    (h : ∀ k, lookup k es = lookup k fs) : es = fs := by
  induction es generalizing fs with
  | nil =>
    cases fs with
    | nil => rfl
    | cons f fs => simpa [lookup] using h f.1
  | cons e es ih =>
    obtain ⟨k, v⟩ := e
    cases fs with
    | nil => simpa [lookup] using h k
    | cons f fs =>
      obtain ⟨l, w⟩ := f
      rcases lt_or_eq_or_gt k l with hkl | rfl | hlk
      · have := h k
        rw [lookup_lt_head hf hkl] at this
        simp [lookup] at this
      · have hv := h k
        simp only [lookup, if_true, Option.some.injEq] at hv
        have hes := List.pairwise_cons.mp he
        have hfs := List.pairwise_cons.mp hf
        rw [hv, ih hes.2 hfs.2 fun i => ?_]
        by_cases hi : i = k
        · rw [hi, lookup_eq_none hes.1, lookup_eq_none hfs.1]
        · simpa [lookup, hi] using h i
      · have := h l
        rw [lookup_lt_head he hlk] at this
        simp [lookup] at this

/-- A map is what its labels read. -/
theorem ext_get? {m n : LabelMap β} (h : ∀ k, m.get? k = n.get? k) : m = n := by
  obtain ⟨es, he⟩ := m
  obtain ⟨fs, hf⟩ := n
  cases entries_unique he hf h
  rfl

theorem mem_of_lookup {l : Label} {v : β} {es : List (Label × β)} (h : lookup l es = some v) :
    (l, v) ∈ es := by
  induction es with
  | nil => simp [lookup] at h
  | cons e es ih =>
    obtain ⟨k, w⟩ := e
    simp only [lookup] at h
    split at h
    · simp_all
    · exact List.mem_cons_of_mem _ (ih h)

theorem lookup_of_mem {l : Label} {v : β} {es : List (Label × β)} (he : Ascending es)
    (h : (l, v) ∈ es) : lookup l es = some v := by
  induction es with
  | nil => simp at h
  | cons e es ih =>
    have hes := List.pairwise_cons.mp he
    rcases List.mem_cons.mp h with rfl | h
    · simp [lookup]
    · have hne : l ≠ e.1 := by
        rintro rfl
        exact not_lt_self e.1 (hes.1 (e.1, v) h)
      simpa [lookup, hne] using ih hes.2 h

theorem mem_entries_iff {m : LabelMap β} {l : Label} {v : β} :
    (l, v) ∈ m.entries ↔ m.get? l = some v :=
  ⟨lookup_of_mem m.ascending, mem_of_lookup⟩

def labels (m : LabelMap β) : List Label := m.entries.map Prod.fst

theorem mem_labels_iff {m : LabelMap β} {l : Label} : l ∈ m.labels ↔ ∃ v, m.get? l = some v := by
  simp [labels, ← mem_entries_iff]

theorem nodup_labels (m : LabelMap β) : m.labels.Nodup := by
  refine List.pairwise_map.mpr (m.ascending.imp fun hlt heq => ?_)
  rw [heq] at hlt
  exact not_lt_self _ hlt

end LabelMap
end SweepReport
