import SweepReport.Text.Blank

/-! Patterns of words and of runs of characters of a class, matched by trying. A greedy run takes as
many characters as it can and gives them back one by one; a lazy one takes as few as it can and goes
on one by one. The first way that matches a whole text counts, and what its kept runs took is the
answer. What follows here is how a run is cut where the pattern leaves no choice. -/
namespace SweepReport.Text

/-- A part of a pattern. -/
inductive Piece where
  | word (cs : List Char)
  /-- At least so many characters of a class. -/
  | run (fits : Char → Bool) (least : Nat) (greedy kept : Bool)

def runCuts (fits : Char → Bool) (greedy : Bool) : Nat → List Char → List (List Char × List Char)
  | 0, [] => [([], [])]
  | 0, c :: cs =>
    let longer := if fits c then (runCuts fits greedy 0 cs).map fun r => (c :: r.1, r.2) else []
    if greedy then longer ++ [([], c :: cs)] else ([], c :: cs) :: longer
  | _ + 1, [] => []
  | n + 1, c :: cs => if fits c then (runCuts fits greedy n cs).map fun r => (c :: r.1, r.2) else []

namespace Piece

def cuts : Piece → List Char → List (List Char × List Char)
  | word w, cs => if w.isPrefixOf cs then [(w, cs.drop w.length)] else []
  | run fits least greedy _, cs => runCuts fits greedy least cs

def keeps : Piece → List Char → List (List Char)
  | run _ _ _ true, taken => [taken]
  | _, _ => []

end Piece

/-- What the first way to match the whole text keeps. -/
def search : List Piece → List Char → Option (List (List Char))
  | [], cs => if cs.isEmpty then some [] else none
  | p :: ps, cs => (p.cuts cs).findSome? fun r => (search ps r.2).map (p.keeps r.1 ++ ·)

def opens : List Piece → Char → Bool
  | [], _ => false
  | .word [] :: ps, c => opens ps c
  | .word (d :: _) :: _, c => c == d
  | .run fits 0 _ _ :: ps, c => fits c || opens ps c
  | .run fits (_ + 1) _ _ :: _, c => fits c

variable {fits : Char → Bool} {greedy kept : Bool} {least : Nat} {ps : List Piece}
  {cs : List Char} {ks : List (List Char)}

/-- A run of no least length stops before a character or takes it, in the order that it prefers. -/
theorem mem_runCuts_cons {c : Char} {t r : List Char} :
    (t, r) ∈ runCuts fits greedy 0 (c :: cs) ↔
      t = [] ∧ r = c :: cs ∨
      fits c = true ∧ ∃ u, t = c :: u ∧ (u, r) ∈ runCuts fits greedy 0 cs := by
  cases greedy <;> by_cases hc : fits c = true <;> simp [runCuts, hc] <;> grind

theorem mem_runCuts_succ {c : Char} {n : Nat} {t r : List Char} :
    (t, r) ∈ runCuts fits greedy (n + 1) (c :: cs) ↔
      fits c = true ∧ ∃ u, t = c :: u ∧ (u, r) ∈ runCuts fits greedy n cs := by
  by_cases hc : fits c = true <;> simp [runCuts, hc] <;> grind

/-- A run is cut off in every way that its class and its least length allow. -/
theorem mem_runCuts_iff {t r : List Char} :
    (t, r) ∈ runCuts fits greedy least cs ↔
      cs = t ++ r ∧ (∀ c ∈ t, fits c = true) ∧ least ≤ t.length := by
  induction cs generalizing least t with
  | nil =>
    cases least with
    | zero => simp +contextual [runCuts]
    | succ n =>
      simp only [runCuts, List.not_mem_nil, false_iff]
      rintro ⟨hcs, -, hleast⟩
      simp [(List.nil_eq_append_iff.mp hcs).1] at hleast
  | cons c cs ih =>
    cases least with
    | zero =>
      simp only [mem_runCuts_cons, ih]
      cases t <;> grind
    | succ n =>
      simp only [mem_runCuts_succ, ih]
      cases t <;> grind

theorem search_nil_eq_some_iff : search [] cs = some ks ↔ cs = [] ∧ ks = [] := by
  cases cs <;> simp [search, eq_comm]

@[simp] theorem search_word_append (w cs : List Char) (ps : List Piece) :
    search (.word w :: ps) (w ++ cs) = search ps cs := by
  simp [search, Piece.cuts, Piece.keeps]

theorem exists_of_search_word {w : List Char} (h : search (.word w :: ps) cs = some ks) :
    ∃ r, cs = w ++ r ∧ search ps r = some ks := by
  by_cases hw : w <+: cs
  · obtain ⟨r, rfl⟩ := hw
    exact ⟨r, rfl, by rwa [search_word_append] at h⟩
  · simp [search, Piece.cuts, hw] at h

theorem exists_of_search_run (h : search (.run fits least greedy kept :: ps) cs = some ks) :
    ∃ t r ls, cs = t ++ r ∧ (∀ c ∈ t, fits c = true) ∧ least ≤ t.length ∧
      search ps r = some ls ∧ ks = (Piece.run fits least greedy kept).keeps t ++ ls := by
  obtain ⟨⟨t, r⟩, hcut, htail⟩ := List.exists_of_findSome?_eq_some h
  obtain ⟨hcs, ht, hleast⟩ := mem_runCuts_iff.mp hcut
  obtain ⟨ls, hls, hks⟩ := Option.map_eq_some_iff.mp htail
  exact ⟨t, r, ls, hcs, ht, hleast, hls, hks.symm⟩

theorem opens_of_search {c : Char} (h : search ps (c :: cs) = some ks) : opens ps c = true := by
  induction ps generalizing ks with
  | nil => simp [search] at h
  | cons p ps ih =>
    cases p with
    | word w =>
      obtain ⟨r, hcs, hr⟩ := exists_of_search_word h
      cases w with
      | nil =>
        cases hcs
        exact ih hr
      | cons d w => simp [opens, (List.cons.inj hcs).1]
    | run fits least greedy kept =>
      obtain ⟨t, r, ls, hcs, ht, hleast, hr, -⟩ := exists_of_search_run h
      cases t with
      | nil =>
        cases hcs
        cases Nat.le_zero.mp hleast
        simp [opens, ih hr]
      | cons d t =>
        have hc : fits c = true := ht c (by simp [(List.cons.inj hcs).1])
        cases least <;> simp [opens, hc]

theorem search_eq_none {c : Char} (h : opens ps c = false) : search ps (c :: cs) = none := by
  refine Option.eq_none_iff_forall_ne_some.mpr fun ks hks => ?_
  rw [opens_of_search hks] at h
  contradiction

/-- A run is not left before its end where what follows cannot start with one of its characters. -/
theorem findSome?_runCuts {β : Type} {f : List Char × List Char → Option β} {t r : List Char}
    (ht : ∀ c ∈ t, fits c = true) (hr : ∀ c ∈ r.head?, fits c = false) (hleast : least ≤ t.length)
    (hf : ∀ u c rest, fits c = true → f (u, c :: rest) = none) :
    (runCuts fits greedy least (t ++ r)).findSome? f = f (t, r) := by
  induction t generalizing least f with
  | nil =>
    obtain rfl : least = 0 := Nat.le_zero.mp hleast
    cases r with
    | nil => cases h : f ([], []) <;> simp [runCuts, h]
    | cons c r =>
      have hc : fits c = false := hr c rfl
      cases h : f ([], c :: r) <;> cases greedy <;> simp [runCuts, hc, h]
  | cons c t ih =>
    obtain ⟨hc, ht⟩ := List.forall_mem_cons.mp ht
    have hlonger (n : Nat) (hn : n ≤ t.length) :
        ((runCuts fits greedy n (t ++ r)).map fun q => (c :: q.1, q.2)).findSome? f =
          f (c :: t, r) := by
      rw [List.findSome?_map]
      exact ih ht hn fun u d rest hd => hf (c :: u) d rest hd
    cases least with
    | zero =>
      have hstop : f ([], c :: (t ++ r)) = none := hf [] c (t ++ r) hc
      have hfirst := hlonger 0 (Nat.zero_le _)
      cases greedy <;>
        simp only [runCuts, List.cons_append, hc, if_true, List.findSome?_append,
          List.findSome?_cons, List.findSome?_nil, hstop, hfirst, Option.or_none, Bool.false_eq_true,
          if_false]
    | succ n =>
      rw [List.cons_append, runCuts, if_pos hc]
      exact hlonger n (Nat.le_of_succ_le_succ hleast)

theorem search_run_append {t r : List Char} (ht : ∀ c ∈ t, fits c = true)
    (hr : ∀ c ∈ r.head?, fits c = false) (hleast : least ≤ t.length)
    (hapart : ∀ c, fits c = true → opens ps c = false) :
    search (.run fits least greedy kept :: ps) (t ++ r) =
      (search ps r).map ((Piece.run fits least greedy kept).keeps t ++ ·) := by
  refine findSome?_runCuts ht hr hleast fun u c rest hc => ?_
  rw [search_eq_none (hapart c hc), Option.map_none]

/-- A greedy run that is not kept is tried with the next character before it is tried without. -/
theorem search_greedy_cons (c : Char) (cs : List Char) :
    search (.run fits 0 true false :: ps) (c :: cs) =
      if fits c then (search (.run fits 0 true false :: ps) cs).or (search ps (c :: cs))
      else search ps (c :: cs) := by
  have hkeeps (t : List Char) : (Piece.run fits 0 true false).keeps t = [] := rfl
  by_cases hc : fits c = true
  · simp [search, Piece.cuts, runCuts, hc, hkeeps, List.findSome?_map, Function.comp_def]
  · simp [search, Piece.cuts, runCuts, hc, hkeeps]

end SweepReport.Text
