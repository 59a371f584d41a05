import SweepReport.Proofs.Json.Number
import SweepReport.Proofs.Json.Text

/-! A value that was written is read as the same value, by induction on the value. Each level of it
takes three steps of the reader and at least a character of the text. -/
namespace SweepReport.Json
open Numeral

/-- A value with nothing missing: its brackets are closed and its numbers are doubles. -/
inductive Complete : Json → Prop
  | null : Complete null
  | bool (b : Bool) : Complete (bool b)
  | number {n : Number} (h : n.toFloat.isFinite) : Complete (number n)
  | text (s : String) : Complete (text s)
  | array {items : List Json} (h : ∀ v ∈ items, Complete v) : Complete (array items true)
  | object {members : List (String × Json)} (h : ∀ m ∈ members, Complete m.2) :
    Complete (object members true)

mutual

def asRead : Json → Json
  | null => null
  | bool b => bool b
  | number n => number n.asRead
  | text s => text s
  | array items closed => array (itemsAsRead items) closed
  | object members closed => object (membersAsRead members) closed
  | broken => broken

def itemsAsRead : List Json → List Json
  | [] => []
  | v :: vs => v.asRead :: itemsAsRead vs

def membersAsRead : List (String × Json) → List (String × Json)
  | [] => []
  | (k, v) :: ms => (k, v.asRead) :: membersAsRead ms

end

theorem itemsAsRead_eq_map (vs : List Json) : itemsAsRead vs = vs.map asRead := by
  induction vs with
  | nil => rfl
  | cons v vs ih => rw [itemsAsRead, ih, List.map_cons]

theorem membersAsRead_eq_map (ms : List (String × Json)) :
    membersAsRead ms = ms.map fun m => (m.1, m.2.asRead) := by
  induction ms with
  | nil => rfl
  | cons m ms ih => rw [membersAsRead, ih, List.map_cons]

def Follows (rest : List Char) : Prop := ∀ c ∈ rest.head?, c = ',' ∨ c = ']' ∨ c = '\x7d'

theorem Follows.ends {rest : List Char} (h : Follows rest) : Ends rest := by
  intro c hc
  rcases h c hc with rfl | rfl | rfl <;> decide

theorem follows_comma (rest : List Char) : Follows (',' :: rest) := by simp [Follows]

theorem follows_bracket (rest : List Char) : Follows (']' :: rest) := by simp [Follows]

theorem follows_brace (rest : List Char) : Follows ('\x7d' :: rest) := by simp [Follows]

theorem skipSpace_cons {c : Char} (hc : isSpace c = false) (cs : List Char) :
    skipSpace (c :: cs) = c :: cs :=
  List.dropWhile_cons_of_neg (by simp [hc])

/-- The text of the value starts as a value does, and is read as the value. -/
structure ReadsBack (v : Json) : Prop where
  start : ∃ c r, v.chars = c :: r ∧ isSpace c = false ∧ c ≠ ']'
  reads : ∀ {fuel : Nat} {rest : List Char}, 3 * v.chars.length ≤ fuel → Follows rest →
    value fuel (v.chars ++ rest) = (v.asRead, rest)

theorem items_itemChars {vs : List Json} (h : ∀ v ∈ vs, ReadsBack v) (hne : vs ≠ [])
    (rest : List Char) {fuel : Nat} (hfuel : 3 * (itemChars vs).length < fuel) :
    items fuel (itemChars vs ++ ']' :: rest) = (itemsAsRead vs, true, rest) := by
  induction vs generalizing fuel with
  | nil => contradiction
  | cons v vs ih =>
    obtain ⟨hv, hvs⟩ := List.forall_mem_cons.mp h
    obtain ⟨fuel, rfl⟩ : ∃ n, fuel = n + 1 := Nat.exists_eq_succ_of_ne_zero (by omega)
    cases vs with
    | nil =>
      have hread : value fuel (v.chars ++ ']' :: rest) = (v.asRead, ']' :: rest) :=
        hv.reads (by simp only [itemChars] at hfuel; omega) (follows_bracket rest)
      simp [itemChars, items, hread, skipSpace_cons, isSpace, itemsAsRead]
    | cons w ws =>
      simp only [itemChars, List.length_append, List.length_cons] at hfuel
      have hread : value fuel (v.chars ++ ',' :: (itemChars (w :: ws) ++ ']' :: rest)) =
          (v.asRead, ',' :: (itemChars (w :: ws) ++ ']' :: rest)) :=
        hv.reads (by omega) (follows_comma _)
      have hrest : items fuel (itemChars (w :: ws) ++ ']' :: rest) =
          (itemsAsRead (w :: ws), true, rest) := ih hvs (by simp) (by omega)
      simp [itemChars, items, hread, hrest, skipSpace_cons, isSpace, itemsAsRead]

theorem members_memberChars {ms : List (String × Json)} (h : ∀ m ∈ ms, ReadsBack m.2)
    (hne : ms ≠ []) (rest : List Char) {fuel : Nat} (hfuel : 3 * (memberChars ms).length < fuel) :
    members fuel (memberChars ms ++ '\x7d' :: rest) = (membersAsRead ms, true, rest) := by
  induction ms generalizing fuel with
  | nil => contradiction
  | cons m ms ih =>
    obtain ⟨hv, hms⟩ := List.forall_mem_cons.mp h
    obtain ⟨k, v⟩ := m
    replace hv : ReadsBack v := hv
    obtain ⟨fuel, rfl⟩ : ∃ n, fuel = n + 1 := Nat.exists_eq_succ_of_ne_zero (by omega)
    cases ms with
    | nil =>
      simp only [memberChars, List.length_append, List.length_cons] at hfuel
      have hread : value fuel (v.chars ++ '\x7d' :: rest) = (v.asRead, '\x7d' :: rest) :=
        hv.reads (by omega) (follows_brace rest)
      simp [memberChars, stringChars, members, string?_escaped, hread, skipSpace_cons, isSpace,
        membersAsRead]
    | cons m' ms =>
      simp only [memberChars, List.length_append, List.length_cons] at hfuel
      have hread : value fuel (v.chars ++ ',' :: (memberChars (m' :: ms) ++ '\x7d' :: rest)) =
          (v.asRead, ',' :: (memberChars (m' :: ms) ++ '\x7d' :: rest)) :=
        hv.reads (by omega) (follows_comma _)
      have hrest : members fuel (memberChars (m' :: ms) ++ '\x7d' :: rest) =
          (membersAsRead (m' :: ms), true, rest) := ih hms (by simp) (by omega)
      simp [memberChars, stringChars, members, string?_escaped, hread, hrest, skipSpace_cons,
        isSpace, membersAsRead]

/-- A value that is read without a look at the fuel. -/
theorem ReadsBack.of_step {v : Json} (start : ∃ c r, v.chars = c :: r ∧ isSpace c = false ∧ c ≠ ']')
    (step : ∀ (fuel : Nat) {rest : List Char}, Follows rest →
      value (fuel + 1) (v.chars ++ rest) = (v.asRead, rest)) : ReadsBack v := by
  refine ⟨start, fun {fuel rest} hfuel hrest => ?_⟩
  obtain ⟨c, r, hchars, -⟩ := start
  rw [hchars, List.length_cons] at hfuel
  obtain ⟨fuel, rfl⟩ : ∃ n, fuel = n + 1 := Nat.exists_eq_succ_of_ne_zero (by omega)
  exact step fuel hrest

theorem readsBack_null : ReadsBack null :=
  .of_step ⟨'n', _, rfl, by decide⟩ fun fuel rest _ => by
    simp [chars, asRead, value, skipSpace_cons, isSpace, word]

theorem readsBack_bool (b : Bool) : ReadsBack (bool b) := by
  cases b with
  | false =>
    exact .of_step ⟨'f', _, rfl, by decide⟩ fun fuel rest _ => by
      simp [chars, asRead, value, skipSpace_cons, isSpace, word]
  | true =>
    exact .of_step ⟨'t', _, rfl, by decide⟩ fun fuel rest _ => by
      simp [chars, asRead, value, skipSpace_cons, isSpace, word]

theorem readsBack_text (s : String) : ReadsBack (text s) :=
  .of_step ⟨'"', _, rfl, by decide⟩ fun fuel rest _ => by
    simp [chars, stringChars, asRead, value, skipSpace_cons, isSpace, string?_escaped]

/-- Neither a sign nor a digit starts anything else. -/
theorem number_head_ne {c : Char} (hc : c = '-' ∨ isDigit c = true) :
    isSpace c = false ∧ c ≠ ']' ∧ ∀ d ∈ ['\x7b', '[', '"', 'n', 't', 'f'], c ≠ d := by
  have hne (d : Char) (hminus : '-' ≠ d) (hd : isDigit d = false) : c ≠ d := by
    rcases hc with rfl | hc
    · exact hminus
    · rintro rfl
      rw [hc] at hd
      contradiction
  refine ⟨?_, hne ']' (by decide) (by decide), fun d hd => ?_⟩
  · simp [isSpace, hne ' ' (by decide) (by decide), hne '\t' (by decide) (by decide),
      hne '\n' (by decide) (by decide), hne '\r' (by decide) (by decide)]
  · revert d
    simp [hne '\x7b' (by decide) (by decide), hne '[' (by decide) (by decide),
      hne '"' (by decide) (by decide), hne 'n' (by decide) (by decide),
      hne 't' (by decide) (by decide), hne 'f' (by decide) (by decide)]

theorem value_of_number? {cs rest : List Char} {n : Number} (h : number? cs = some (n, rest))
    (fuel : Nat) : value (fuel + 1) cs = (number n, rest) := by
  obtain ⟨c, r, rfl, hc⟩ := head_of_number? h
  obtain ⟨hspace, -, hother⟩ := number_head_ne hc
  simp only [value, skipSpace_cons hspace]
  split <;> simp_all

theorem readsBack_number {n : Number} (h : n.toFloat.isFinite) : ReadsBack (number n) := by
  have hread {rest : List Char} (hrest : Ends rest) :
      number? (numberChars n ++ rest) = some (n.asRead, rest) :=
    number?_numberChars hrest (by rwa [toFloat_asRead])
  refine .of_step ?_ fun fuel rest hrest => value_of_number? (hread hrest.ends) fuel
  obtain ⟨c, r, hcs, hc⟩ := head_of_number? (hread (show Ends [] by simp [Ends]))
  rw [List.append_nil] at hcs
  exact ⟨c, r, hcs, (number_head_ne hc).1, (number_head_ne hc).2.1⟩

theorem firstItem_cons {c : Char} {r : List Char} (hspace : isSpace c = false) (hc : c ≠ ']')
    (fuel : Nat) : firstItem (fuel + 1) (c :: r) =
      (array (items fuel (c :: r)).1 (items fuel (c :: r)).2.1, (items fuel (c :: r)).2.2) := by
  simp only [firstItem, skipSpace_cons hspace]
  split
  · simp_all
  · simp_all

theorem readsBack_array {vs : List Json} (h : ∀ v ∈ vs, ReadsBack v) : ReadsBack (array vs true) := by
  refine ⟨⟨'[', _, rfl, by decide⟩, fun {fuel rest} hfuel _ => ?_⟩
  simp only [chars, List.length_append, List.length_cons, if_true] at hfuel
  obtain ⟨fuel, rfl⟩ : ∃ n, fuel = n + 3 := Nat.exists_eq_add_of_le' (by omega)
  have hfirst : value (fuel + 3) ((array vs true).chars ++ rest) =
      firstItem (fuel + 2) (itemChars vs ++ ']' :: rest) := by
    simp [chars, value, skipSpace_cons, isSpace]
  rw [hfirst]
  cases vs with
  | nil => simp [itemChars, firstItem, skipSpace_cons, isSpace, asRead, itemsAsRead]
  | cons v vs =>
    obtain ⟨c, r, hcs, hspace, hc⟩ := (h v List.mem_cons_self).start
    have hitems := items_itemChars h (List.cons_ne_nil v vs) rest
      (show 3 * (itemChars (v :: vs)).length < fuel + 1 by omega)
    obtain ⟨r', htext⟩ : ∃ r', itemChars (v :: vs) ++ ']' :: rest = c :: r' := by
      cases vs <;> simp [itemChars, hcs]
    rw [htext] at hitems ⊢
    rw [firstItem_cons hspace hc, hitems]
    rfl

theorem readsBack_object {ms : List (String × Json)} (h : ∀ m ∈ ms, ReadsBack m.2) :
    ReadsBack (object ms true) := by
  refine ⟨⟨'\x7b', _, rfl, by decide⟩, fun {fuel rest} hfuel _ => ?_⟩
  simp only [chars, List.length_append, List.length_cons, if_true] at hfuel
  obtain ⟨fuel, rfl⟩ : ∃ n, fuel = n + 3 := Nat.exists_eq_add_of_le' (by omega)
  have hfirst : value (fuel + 3) ((object ms true).chars ++ rest) =
      firstMember (fuel + 2) (memberChars ms ++ '\x7d' :: rest) := by
    simp [chars, value, skipSpace_cons, isSpace]
  rw [hfirst]
  cases ms with
  | nil => simp [memberChars, firstMember, skipSpace_cons, isSpace, asRead, membersAsRead]
  | cons m ms =>
    have hmembers := members_memberChars h (List.cons_ne_nil m ms) rest
      (show 3 * (memberChars (m :: ms)).length < fuel + 1 by omega)
    obtain ⟨r, htext⟩ : ∃ r, memberChars (m :: ms) ++ '\x7d' :: rest = '"' :: r := by
      cases ms <;> simp [memberChars, stringChars]
    rw [htext] at hmembers ⊢
    simp [firstMember, skipSpace_cons, isSpace, hmembers, asRead]

theorem Complete.readsBack {v : Json} (h : v.Complete) : ReadsBack v := by
  induction h with
  | null => exact readsBack_null
  | bool b => exact readsBack_bool b
  | number h => exact readsBack_number h
  | text s => exact readsBack_text s
  | array _ ih => exact readsBack_array ih
  | object _ ih => exact readsBack_object ih

/-- The text of a complete value is one document, and its value is the one that was written. -/
theorem read_render {v : Json} (h : v.Complete) : Json.read v.render = ⟨v.asRead, true⟩ := by
  have hread := h.readsBack.reads (show 3 * v.chars.length ≤ 3 * v.chars.length + 3 by omega)
    (show Follows [] by simp [Follows])
  rw [List.append_nil] at hread
  simp [Json.read, render, hread, skipSpace]

end SweepReport.Json
