import SweepReport.Text.Utf8

/-! Bytes that are a text, one character after another. Texts put together are a text, and a byte
that is a character by itself divides a text into two. -/
namespace SweepReport.Text

inductive IsText : List UInt8 → Prop
  | nil : IsText []
  | cons {bs rest : List UInt8} {c : Char} (first : firstChar? bs = some (c, rest))
    (more : IsText rest) : IsText bs

theorem firstChar?_append {bs rest : List UInt8} {c : Char} (h : firstChar? bs = some (c, rest))
    (more : List UInt8) : firstChar? (bs ++ more) = some (c, rest ++ more) := by
  unfold firstChar? at h ⊢
  grind

section
variable {b : UInt8} (hb : b < 0x80)
include hb

theorem firstChar?_ascii (bs : List UInt8) :
    firstChar? (b :: bs) = some (Char.ofNat b.toNat, bs) := by
  simp [firstChar?, hb]

theorem isTail_ascii : isTail b = false := by
  have hlow : ¬ 0x80 ≤ b := UInt8.not_le.mpr hb
  simp [isTail, hlow]

theorem isSecond_ascii (a : UInt8) : isSecond a b = false := by
  have hlow (n : UInt8) (hn : 0x80 ≤ n) : ¬ n ≤ b := fun h =>
    UInt8.not_le.mpr hb (UInt8.le_trans hn h)
  simp [isSecond, isTail_ascii hb, hlow]

/-- No character goes past a byte that is one by itself. -/
theorem firstChar?_of_append {a : UInt8} {bs rest more : List UInt8} {c : Char}
    (h : firstChar? (a :: bs ++ b :: more) = some (c, rest)) :
    ∃ left, firstChar? (a :: bs) = some (c, left) ∧ rest = left ++ b :: more := by
  have htail := isTail_ascii hb
  have hsecond := isSecond_ascii hb
  unfold firstChar? at h ⊢
  rcases bs with _ | ⟨x, _ | ⟨y, _ | ⟨z, bs⟩⟩⟩ <;> grind

end

theorem IsText.append {bs more : List UInt8} (h : IsText bs) (hmore : IsText more) :
    IsText (bs ++ more) := by
  induction h with
  | nil => exact hmore
  | cons first _ ih => exact .cons (firstChar?_append first more) ih

/-- A byte that is a character by itself stands between two texts. -/
theorem IsText.divide {bs more : List UInt8} {b : UInt8} (hb : b < 0x80)
    (h : IsText (bs ++ b :: more)) : IsText bs ∧ IsText more := by
  generalize hwhole : bs ++ b :: more = whole at h
  induction h generalizing bs with
  | nil => simp at hwhole
  | cons first hrest ih =>
    subst hwhole
    cases bs with
    | nil =>
      rw [List.nil_append, firstChar?_ascii hb, Option.some.injEq, Prod.mk.injEq] at first
      exact ⟨.nil, first.2 ▸ hrest⟩
    | cons a bs =>
      obtain ⟨left, hleft, hends⟩ := firstChar?_of_append hb first
      obtain ⟨hbefore, hafter⟩ := ih hends.symm
      exact ⟨.cons hleft hbefore, hafter⟩

/-- Characters that are single bytes can be taken from the start of a text. -/
theorem IsText.of_ascii_append {front bs : List UInt8} (hfront : ∀ b ∈ front, b < 0x80)
    (h : IsText (front ++ bs)) : IsText bs := by
  induction front with
  | nil => exact h
  | cons b front ih =>
    obtain ⟨hb, hfront⟩ := List.forall_mem_cons.mp hfront
    have hwhole : IsText ([] ++ b :: (front ++ bs)) := h
    exact ih hfront (hwhole.divide hb).2

/-- Characters that are single bytes can be taken from the end of a text. -/
theorem IsText.of_append_ascii {bs back : List UInt8} (hback : ∀ b ∈ back, b < 0x80)
    (h : IsText (bs ++ back)) : IsText bs := by
  cases back with
  | nil => rwa [List.append_nil] at h
  | cons b back => exact (h.divide (hback b List.mem_cons_self)).1

theorem exists_decodeFrom_iff {bs : List UInt8} {position : Nat} {done : List Char} :
    (∃ cs, decodeFrom position bs done = .ok cs) ↔ IsText bs := by
  fun_induction decodeFrom position bs done with
  | case1 position done => exact iff_of_true ⟨_, rfl⟩ .nil
  | case2 position done b bs h =>
    refine iff_of_false nofun fun htext => ?_
    cases htext with
    | cons first _ =>
      rw [h] at first
      contradiction
  | case3 position done b bs c rest h _ ih =>
    rw [ih]
    refine ⟨.cons h, fun htext => ?_⟩
    cases htext with
    | cons first more =>
      rw [h, Option.some.injEq, Prod.mk.injEq] at first
      exact first.2 ▸ more

theorem exists_decode_iff {bs : List UInt8} : (∃ s, decode bs = .ok s) ↔ IsText bs := by
  rw [← @exists_decodeFrom_iff bs 0 [], decode]
  cases decodeFrom 0 bs [] with
  | error position => exact iff_of_false nofun nofun
  | ok cs => exact iff_of_true ⟨_, rfl⟩ ⟨_, rfl⟩

end SweepReport.Text
