import SweepReport.Proofs.Label.Grammar
import SweepReport.Proofs.Text.Pieces

/-! Labels by way of a pattern. The pattern leaves open how the text before the comma is shared out
among its runs; trying them in turn finds the same thread count as trimming does, so that matching the
pattern and reading the digits reads the same labels. -/
namespace SweepReport.Label
open Text (isBlank Piece search search_word_append search_run_append search_greedy_cons Blanks)
open Numeral (isDigit digitsValue)

/-- As much white space as there is; it is not kept. -/
abbrev blankRun : Piece := .run isBlank 0 true false

/-- The thread count, which takes as little as it can, white space and the comma. -/
def countPieces (rest : List Piece) : List Piece :=
  .run (· != ',') 1 false true :: blankRun :: .word [','] :: rest

def unitPieces : List Piece := [blankRun, .word unit, blankRun]

def sizePieces (digit : Char → Bool) : List Piece :=
  blankRun :: .run digit 1 true true :: unitPieces

/-- The pattern `^\s*([^,]+?)\s*,\s*(\d+)\s*files\s*$`. -/
def pieces (digit : Char → Bool) : List Piece :=
  blankRun :: countPieces (sizePieces digit)

/-- The label of a text that matches the pattern, if its digits write a word. -/
def ofMatch (digit : Char → Bool) (s : String) : Except UnreadableLabel Label :=
  match search (pieces digit) s.toList with
  | some [threads, digits] =>
    match Numeral.readWord 10 digits with
    | .ok n => .ok ⟨⟨String.ofList threads⟩, n⟩
    | .error _ => .error ⟨s⟩
  | _ => .error ⟨s⟩

/-- The decimal digits of some scripts: of the first 128 characters the ten digits, and beyond those
anything but white space. -/
structure DigitClass (digit : Char → Bool) : Prop where
  ascii : ∀ c, c.toNat < 128 → digit c = isDigit c
  notBlank : ∀ c, digit c = true → isBlank c = false

theorem threadsOf?_blank_cons {c : Char} {cs : List Char} (hc : isBlank c = true) (hcs : cs ≠ []) :
    threadsOf? (c :: cs) = threadsOf? cs := by
  by_cases hblank : Blanks cs
  · have hall : Blanks (c :: cs) := List.forall_mem_cons.mpr ⟨hc, hblank⟩
    rw [threadsOf?_of_blanks hall, threadsOf?_of_blanks hblank, List.getLast?_cons_of_ne_nil hcs]
  · have hone : Blanks [c] := by simpa [Blanks] using hc
    have hall : ¬ Blanks (c :: cs) := fun h => hblank (List.forall_mem_cons.mp h).2
    have htrim : Text.trim (c :: cs) = Text.trim cs :=
      congrArg Text.trimEnd (Text.trimStart_append hone cs)
    rw [threadsOf?_of_not_blanks hall, threadsOf?_of_not_blanks hblank, htrim]

theorem threadsOf?_cons {c : Char} (hc : isBlank c = false) (cs : List Char) :
    threadsOf? (c :: cs) = some (c :: Text.trimEnd cs) := by
  have hall : ¬ Blanks (c :: cs) := fun h => by
    rw [(List.forall_mem_cons.mp h).1] at hc
    contradiction
  have hstart : Text.trimStart (c :: cs) = c :: cs :=
    Text.trimStart_eq_self fun d hd => Option.some.inj hd ▸ hc
  rw [threadsOf?_of_not_blanks hall, Text.trim, hstart, Text.trimEnd_cons hall]

section
variable {before u after : List Char} {rest : List Piece}

/-- The run before the comma can only be all that is left before it. -/
theorem search_blanks_comma (hu : ',' ∉ u) :
    search (blankRun :: .word [','] :: rest) (u ++ ',' :: after) =
      if Blanks u then search rest after else none := by
  split
  · rename_i hblank
    have hapart : ∀ c, isBlank c = true → Text.opens (.word [','] :: rest) c = false := by
      intro c hc
      refine beq_eq_false_iff_ne.mpr fun hcomma => ?_
      rw [hcomma] at hc
      contradiction
    have hcomma : ∀ c ∈ (',' :: after).head?, isBlank c = false :=
      fun c hc => Option.some.inj hc ▸ rfl
    rw [search_run_append hblank hcomma (Nat.zero_le _) hapart]
    exact Option.map_id'.trans (search_word_append [','] after rest)
  · rename_i hblank
    refine Option.eq_none_iff_forall_ne_some.mpr fun ks hks => hblank ?_
    obtain ⟨t, r, ls, hcs, ht, -, hr, -⟩ := Text.exists_of_search_run hks
    obtain ⟨r', hr', -⟩ := Text.exists_of_search_word hr
    have hcomma : ',' ∉ t := fun hmem => absurd (ht ',' hmem) (by decide)
    have hsame : splitComma? (u ++ ',' :: after) = some (t, r') :=
      splitComma?_eq_some_iff.mpr ⟨by rw [hcs, hr']; rfl, hcomma⟩
    rw [splitComma?_eq_some_iff.mpr ⟨rfl, hu⟩, Option.some.injEq, Prod.mk.injEq] at hsame
    exact hsame.1 ▸ ht

/-- The lazy run ends where only white space is left before the comma. -/
theorem findSome?_count (g : List Char → List (List Char) → List (List Char)) (hu : ',' ∉ u) :
    ((Text.runCuts (· != ',') false 0 (u ++ ',' :: after)).findSome? fun r =>
        (search (blankRun :: .word [','] :: rest) r.2).map (g r.1)) =
      (search rest after).map (g (Text.trimEnd u)) := by
  -- The run stops before a character only if all from there on is white space.
  induction u generalizing g with
  | nil =>
    have hnil : search (blankRun :: .word [','] :: rest) (',' :: after) =
        search rest after := search_blanks_comma List.not_mem_nil
    have hcut : Text.runCuts (· != ',') false 0 (',' :: after) = [([], ',' :: after)] := rfl
    rw [List.nil_append, hcut, List.findSome?_singleton, hnil]
    rfl
  | cons c u ih =>
    have hc : (c != ',') = true := bne_iff_ne.mpr fun h => hu (h ▸ List.mem_cons_self)
    have hlater := ih (fun t => g (c :: t)) fun h => hu (List.mem_cons_of_mem c h)
    have hcut : Text.runCuts (· != ',') false 0 (c :: u ++ ',' :: after) =
        ([], c :: u ++ ',' :: after) ::
          (Text.runCuts (· != ',') false 0 (u ++ ',' :: after)).map fun r => (c :: r.1, r.2) := by
      rw [List.cons_append, Text.runCuts, if_pos hc]
      rfl
    rw [hcut, List.findSome?_cons, search_blanks_comma hu, List.findSome?_map]
    simp only [Function.comp_def, hlater]
    by_cases hblank : Blanks (c :: u)
    · rw [if_pos hblank, Text.trimEnd_eq_nil_iff.mpr hblank]
      cases search rest after <;> rfl
    · rw [if_neg hblank, Text.trimEnd_cons hblank]
      rfl

theorem search_countPieces {c : Char} (hcomma : ',' ∉ c :: u) :
    search (countPieces rest) (c :: u ++ ',' :: after) =
      (search rest after).map ((c :: Text.trimEnd u) :: ·) := by
  have hc : (c != ',') = true := bne_iff_ne.mpr fun h => hcomma (h ▸ List.mem_cons_self)
  have hu : ',' ∉ u := fun h => hcomma (List.mem_cons_of_mem c h)
  have hcut : Text.runCuts (· != ',') false 1 (c :: u ++ ',' :: after) =
      (Text.runCuts (· != ',') false 0 (u ++ ',' :: after)).map fun r => (c :: r.1, r.2) := by
    rw [List.cons_append, Text.runCuts, if_pos hc]
  rw [countPieces, search, Piece.cuts, hcut, List.findSome?_map]
  exact findSome?_count (fun t ks => (c :: t) :: ks) hu

theorem search_pieces {digit : Char → Bool} (hcomma : ',' ∉ before) :
    search (pieces digit) (before ++ ',' :: after) =
      (threadsOf? before).bind fun t => (search (sizePieces digit) after).map (t :: ·) := by
  induction before with
  | nil =>
    rw [List.nil_append, pieces, search_greedy_cons]
    exact Text.search_eq_none rfl
  | cons c b ih =>
    -- White space goes to the leading run, unless the count would be left with nothing.
    have hb : ',' ∉ b := fun h => hcomma (List.mem_cons_of_mem c h)
    have hcount : search (countPieces (sizePieces digit)) (c :: (b ++ ',' :: after)) =
        (search (sizePieces digit) after).map ((c :: Text.trimEnd b) :: ·) :=
      search_countPieces hcomma
    rw [List.cons_append, pieces, search_greedy_cons, ← pieces, hcount]
    cases hc : isBlank c with
    | false =>
      rw [threadsOf?_cons hc]
      rfl
    | true =>
      rw [ih hb, if_pos rfl]
      by_cases hempty : b = []
      · have hlone : threadsOf? [c] = some [c] := by
          rw [threadsOf?_of_blanks (by simpa [Blanks] using hc)]
          rfl
        rw [hempty, hlone]
        rfl
      · obtain ⟨t, ht⟩ := Option.isSome_iff_exists.mp (isSome_threadsOf?_iff.mpr hempty)
        rw [threadsOf?_blank_cons hc hempty, ht]
        cases search (sizePieces digit) after <;> rfl

/-- A text that matches has a comma, so that it is a count's pieces and a size's. -/
theorem exists_of_search_pieces {digit : Char → Bool} {cs : List Char} {ks : List (List Char)}
    (h : search (pieces digit) cs = some ks) :
    ∃ before after, cs = before ++ ',' :: after ∧ ',' ∉ before := by
  obtain ⟨w, _, _, rfl, -, -, hcount, -⟩ := Text.exists_of_search_run h
  obtain ⟨t, _, _, rfl, -, -, hblank, -⟩ := Text.exists_of_search_run hcount
  obtain ⟨v, _, _, rfl, -, -, hcomma, -⟩ := Text.exists_of_search_run hblank
  obtain ⟨after, rfl, -⟩ := Text.exists_of_search_word hcomma
  exact List.eq_append_cons_of_mem (by simp)

end

section
variable {digit : Char → Bool} {after ds w₁ w₂ w₃ : List Char}

theorem spelled_of_search_sizePieces {ks : List (List Char)}
    (h : search (sizePieces digit) after = some ks) :
    ∃ w₁ ds w₂ w₃, ks = [ds] ∧ after = w₁ ++ (ds ++ (w₂ ++ (unit ++ w₃))) ∧
      (Blanks w₁ ∧ Blanks w₂ ∧ Blanks w₃) ∧ ds ≠ [] ∧ ∀ c ∈ ds, digit c = true := by
  obtain ⟨w₁, _, _, rfl, h₁, -, hcount, rfl⟩ := Text.exists_of_search_run h
  obtain ⟨ds, _, _, rfl, hds, hleast, hword, rfl⟩ := Text.exists_of_search_run hcount
  obtain ⟨w₂, _, _, rfl, h₂, -, hunit, rfl⟩ := Text.exists_of_search_run hword
  obtain ⟨_, rfl, hlast⟩ := Text.exists_of_search_word hunit
  obtain ⟨w₃, _, _, rfl, h₃, -, hend, rfl⟩ := Text.exists_of_search_run hlast
  obtain ⟨rfl, rfl⟩ := Text.search_nil_eq_some_iff.mp hend
  refine ⟨w₁, ds, w₂, w₃, rfl, ?_, ⟨h₁, h₂, h₃⟩, List.ne_nil_of_length_pos hleast, hds⟩
  rw [List.append_nil]

theorem DigitClass.of_isDigit (hdigit : DigitClass digit) {c : Char} (hc : isDigit c = true) :
    digit c = true := by
  have hbounds := Numeral.toNat_of_isDigit hc
  rw [hdigit.ascii c (by omega), hc]

theorem DigitClass.of_blank_or_unit (hdigit : DigitClass digit) {c : Char}
    (hc : isBlank c = true ∨ c = 'f') : digit c = false := by
  cases hc with
  | inl hblank =>
    refine Bool.eq_false_iff.mpr fun hd => ?_
    rw [hdigit.notBlank c hd] at hblank
    contradiction
  | inr hword =>
    rw [hword, hdigit.ascii 'f' (by decide)]
    rfl

theorem search_unitPieces (h₂ : Blanks w₂) (h₃ : Blanks w₃) :
    search unitPieces (w₂ ++ (unit ++ w₃)) = some [] := by
  have hend : search [blankRun] (w₃ ++ []) = some [] :=
    search_run_append h₃ (by simp) (Nat.zero_le _) fun _ _ => rfl
  have hunit (c : Char) (hc : isBlank c = true) :
      Text.opens [.word unit, blankRun] c = false := by
    refine beq_eq_false_iff_ne.mpr fun heq => ?_
    rw [heq] at hc
    contradiction
  have hfirst : ∀ c ∈ (unit ++ w₃).head?, isBlank c = false :=
    fun c hc => Option.some.inj hc ▸ rfl
  rw [List.append_nil] at hend
  rw [unitPieces, search_run_append h₂ hfirst (Nat.zero_le _) hunit, search_word_append, hend]
  rfl

theorem search_sizePieces (hdigit : DigitClass digit) (h₁ : Blanks w₁) (h₂ : Blanks w₂)
    (h₃ : Blanks w₃) (hne : ds ≠ []) (hds : ∀ c ∈ ds, digit c = true) :
    search (sizePieces digit) (w₁ ++ (ds ++ (w₂ ++ (unit ++ w₃)))) = some [ds] := by
  have hfirst : ∀ c ∈ (ds ++ (w₂ ++ (unit ++ w₃))).head?, isBlank c = false := by
    obtain ⟨d, es, rfl⟩ := List.exists_cons_of_ne_nil hne
    exact fun c hc => hdigit.notBlank c (hds c (by simp [Option.some.inj hc]))
  have hbehind : ∀ c ∈ (w₂ ++ (unit ++ w₃)).head?, digit c = false :=
    fun c hc => hdigit.of_blank_or_unit (head?_unit h₂ c hc)
  have hblank (c : Char) (hc : isBlank c = true) :
      Text.opens (.run digit 1 true true :: unitPieces) c = false :=
    hdigit.of_blank_or_unit (.inl hc)
  have hunit (c : Char) (hc : digit c = true) : Text.opens unitPieces c = false := by
    refine Bool.eq_false_iff.mpr fun hopens => ?_
    have hopens' : isBlank c = true ∨ c = 'f' := by
      simpa [unitPieces, Text.opens, unit] using hopens
    rw [hdigit.of_blank_or_unit hopens'] at hc
    contradiction
  rw [sizePieces, search_run_append h₁ hfirst (Nat.zero_le _) hblank,
    search_run_append hds hbehind (List.length_pos_iff.mpr hne) hunit, search_unitPieces h₂ h₃]
  rfl

end

theorem batchOf?_eq_some_iff_search {digit : Char → Bool} (hdigit : DigitClass digit)
    {after : List Char} {n : UInt64} : batchOf? after = some n ↔
      ∃ ds, search (sizePieces digit) after = some [ds] ∧ Numeral.readWord 10 ds = .ok n := by
  constructor
  · intro h
    obtain ⟨w₁, ds, w₂, w₃, rfl, ⟨h₁, h₂, h₃⟩, hne, hds, hvalue⟩ := batchOf?_eq_some_iff.mp h
    have hclass : ∀ c ∈ ds, digit c = true := fun c hc => hdigit.of_isDigit (hds c hc)
    exact ⟨ds, search_sizePieces hdigit h₁ h₂ h₃ hne hclass,
      Numeral.readWord_eq_ok_iff.mpr ((Numeral.spells_of_digits hds).mpr ⟨hne, hvalue⟩)⟩
  · rintro ⟨ds, hsearch, hword⟩
    obtain ⟨w₁, es, w₂, w₃, hes, rfl, ⟨h₁, h₂, h₃⟩, -, hdigits⟩ :=
      spelled_of_search_sizePieces hsearch
    cases hes
    obtain ⟨digits, rfl | hplus, hne, hdecimal, hvalue⟩ := Numeral.readWord_eq_ok_iff.mp hword
    · exact batchOf?_eq_some_iff.mpr ⟨w₁, ds, w₂, w₃, rfl, ⟨h₁, h₂, h₃⟩, hne, hdecimal, hvalue⟩
    · have hfirst := hdigits '+' (hplus ▸ List.mem_cons_self)
      rw [hdigit.ascii '+' (by decide)] at hfirst
      contradiction

theorem ofMatch_eq_ok_iff {digit : Char → Bool} {s : String} {l : Label} :
    ofMatch digit s = .ok l ↔ ∃ ds, search (pieces digit) s.toList =
      some [l.threads.text.toList, ds] ∧ Numeral.readWord 10 ds = .ok l.batch := by
  constructor
  · intro h
    unfold ofMatch at h
    split at h
    · rename_i t ds hsearch
      split at h
      · rename_i n hword
        cases h
        exact ⟨ds, by rw [hsearch, String.toList_ofList], hword⟩
      · contradiction
    · contradiction
  · rintro ⟨ds, hsearch, hword⟩
    simp only [ofMatch, hsearch, hword, String.ofList_toList]

theorem search_pieces_eq_some_iff {digit : Char → Bool} {cs t ds : List Char} :
    search (pieces digit) cs = some [t, ds] ↔
      ∃ before after, cs = before ++ ',' :: after ∧ ',' ∉ before ∧
        threadsOf? before = some t ∧ search (sizePieces digit) after = some [ds] := by
  constructor
  · intro h
    obtain ⟨before, after, rfl, hcomma⟩ := exists_of_search_pieces h
    rw [search_pieces hcomma] at h
    obtain ⟨u, hu, hmap⟩ := Option.bind_eq_some_iff.mp h
    obtain ⟨ks, hks, heq⟩ := Option.map_eq_some_iff.mp hmap
    cases heq
    exact ⟨before, after, rfl, hcomma, hu, hks⟩
  · rintro ⟨before, after, rfl, hcomma, ht, hds⟩
    rw [search_pieces hcomma, ht, hds]
    rfl

theorem ofMatch_eq_error {digit : Char → Bool} {s : String} {u : UnreadableLabel}
    (h : ofMatch digit s = .error u) : u = ⟨s⟩ := by
  unfold ofMatch at h
  split at h
  · split at h
    · contradiction
    · exact (Except.error.inj h).symm
  · exact (Except.error.inj h).symm

theorem ofMatch_eq_ofText {digit : Char → Bool} (hdigit : DigitClass digit) (s : String) :
    ofMatch digit s = ofText s := by
  have hok (l : Label) : ofMatch digit s = .ok l ↔ ofText s = .ok l := by
    simp only [ofMatch_eq_ok_iff, ofText_eq_ok_iff, ofChars?_eq_some_iff,
      search_pieces_eq_some_iff, batchOf?_eq_some_iff_search hdigit]
    grind
  cases hmatch : ofMatch digit s with
  | ok l => exact ((hok l).mp hmatch).symm
  | error u =>
    cases htext : ofText s with
    | ok l =>
      rw [(hok l).mpr htext] at hmatch
      contradiction
    | error v => rw [ofMatch_eq_error hmatch, ofText_eq_error htext]

/-- Texts are read that are spelled as labels, and no others. The label has the thread count within
the text before the comma and the number of the digits, and a text that is refused is handed back.
Matching the pattern, with any class of digits, reads the same. -/
theorem ofText_reads_spellings {digit : Char → Bool} (hdigit : DigitClass digit) (s : String) :
    ofMatch digit s = ofText s ∧
    ((∃ l, ofText s = .ok l) ↔ ∃ p : Spelling, p.chars = s.toList) ∧
    (∀ l, ofText s = .ok l ↔ ∃ p : Spelling, p.chars = s.toList ∧
      CountIn p.before l.threads.text.toList ∧ digitsValue p.digits = l.batch.toNat) ∧
    (ofText s = .error ⟨s⟩ ↔ ∀ p : Spelling, p.chars ≠ s.toList) := by
  refine ⟨ofMatch_eq_ofText hdigit s, exists_ofText_iff, fun l => ofText_eq_ok_iff_spelled, ?_⟩
  rw [← not_exists, ← exists_ofText_iff]
  constructor
  · rintro herror ⟨l, hok⟩
    rw [hok] at herror
    contradiction
  · intro hnone
    cases h : ofText s with
    | ok l => exact absurd ⟨l, h⟩ hnone
    | error u => rw [ofText_eq_error h]

/-- The ten digits and those that Arabic script writes. -/
def someDigit (c : Char) : Bool := isDigit c || (0x660 ≤ c.toNat && c.toNat ≤ 0x669)

theorem digitClass_someDigit : DigitClass someDigit where
  ascii c hc := by
    have hlow : ¬ 0x660 ≤ c.toNat := by omega
    simp [someDigit, hlow]
  notBlank c hc := by
    cases Bool.or_eq_true_iff.mp hc with
    | inl hdigit => exact isBlank_of_isDigit hdigit
    | inr harabic =>
      simp only [Bool.and_eq_true, decide_eq_true_eq] at harabic
      simp [isBlank, Text.blankRanges]
      omega

/-- A count of white space alone is read as its last character, zeros may lead, and digits of another
script are matched and refused. -/
theorem odd_spellings_read :
    DigitClass someDigit ∧ ofMatch someDigit " \t,007files\n" = .ok (.of "\t" 7) ∧
    ofMatch someDigit "4, \u0667 files" = .error ⟨"4, \u0667 files"⟩ := by
  refine ⟨digitClass_someDigit, ?_, ?_⟩
  · rw [(ofText_reads_spellings digitClass_someDigit _).1, ofText_eq_ok_iff]
    decide
  · rw [(ofText_reads_spellings digitClass_someDigit _).1]
    rfl

end SweepReport.Label
