import SweepReport.CommandLine.Arguments
import SweepReport.Proofs.Text.OsString

/-! How options are spelled: what an argument is by its form, and which arguments give an option a
value. -/
namespace SweepReport

/-- What an option is called: its name after two dashes, and its letter after one. -/
def Flag.names (f : Flag) : List OsString :=
  ("--" ++ f.long) :: f.short?.toList.map fun b => "-" ++ ⟨[b]⟩

/-- The arguments that give an option a value. -/
inductive Spelled (f : Flag) (v : OsString) : List OsString → Prop where
  | next {name : OsString} : name ∈ f.names → Invocation.isValue v → Spelled f v [name, v]
  | equals {name : OsString} : name ∈ f.names → Spelled f v [name ++ "=" ++ v]
  | joined {b : UInt8} : f.short? = some b → v ≠ "" → v.bytes.head? ≠ some Argument.equals →
      Spelled f v ["-" ++ ⟨[b]⟩ ++ v]

/-- A value is attached to an option, or it is the next argument. -/
theorem Spelled.attached_or_next {f : Flag} {v : OsString} {as : List OsString} (h : Spelled f v as) :
    (∃ a, as = [a] ∧ Spelled f v [a]) ∨
    ∃ name, name ∈ f.names ∧ Invocation.isValue v ∧ as = [name, v] := by
  cases h with
  | next hname hvalue => exact .inr ⟨_, hname, hvalue, rfl⟩
  | equals hname => exact .inl ⟨_, rfl, .equals hname⟩
  | joined hb hv heq => exact .inl ⟨_, rfl, .joined hb hv heq⟩

theorem Action.ofName?_eq_some_iff {a : OsString} {action : Action} :
    Action.ofName? a = some action ↔ a = action.name := by
  constructor
  · intro h
    simpa using List.find?_some h
  · rintro rfl
    cases action <;> rfl

/-- What is found is what passes, where one thing at most does. -/
theorem find?_eq_some_iff_of_unique {α : Type} {p : α → Bool} {as : List α} {a : α}
    (hp : ∀ b, p a = true → p b = true → b = a) : as.find? p = some a ↔ a ∈ as ∧ p a = true := by
  constructor
  · exact fun h => ⟨List.mem_of_find?_eq_some h, List.find?_some h⟩
  · rintro ⟨hmem, ha⟩
    obtain ⟨b, hb⟩ := Option.isSome_iff_exists.mp (List.find?_isSome.mpr ⟨a, hmem, ha⟩)
    rw [hb, hp b ha (List.find?_some hb)]

namespace Flag

theorem long_injective {f g : Flag} (h : f.long = g.long) : f = g := by
  cases f <;> cases g <;> first | rfl | exact absurd h (by decide)

theorem short?_injective {f g : Flag} {b : UInt8} (hf : f.short? = some b) (hg : g.short? = some b) :
    f = g := by
  cases f <;> cases g <;> first | rfl | exact absurd (hf.trans hg.symm) (by decide) | cases hf

theorem equals_notMem_long (f : Flag) : Argument.equals ∉ (OsString.ofText f.long).bytes := by
  cases f <;> decide

theorem long_ne_nil (f : Flag) : (OsString.ofText f.long).bytes ≠ [] := by
  cases f <;> decide

theorem short?_ne_dash {f : Flag} {b : UInt8} (h : f.short? = some b) : b ≠ Argument.dash := by
  cases f <;> cases h <;> decide

theorem bytes_long (f : Flag) : ("--" ++ f.long : OsString).bytes =
    Argument.dash :: Argument.dash :: (OsString.ofText f.long).bytes := rfl

end Flag

namespace Argument
variable {allowed : List Flag} {f : Flag} {attached : Option OsString} {s v : OsString} {b : UInt8}
  {bs name r : List UInt8}

theorem splitEquals_cons :
    splitEquals (b :: bs) =
      if b = equals then ([], some bs) else (b :: (splitEquals bs).1, (splitEquals bs).2) := by
  by_cases hb : b = equals
  · simp [splitEquals, hb]
  · simp only [splitEquals, List.dropWhile_cons, List.takeWhile_cons, hb, ne_eq, not_false_eq_true,
      decide_true, if_true, if_false]
    split <;> rfl

theorem splitEquals_eq_iff {rest : Option (List UInt8)} :
    splitEquals bs = (name, rest) ↔ equals ∉ name ∧ bs = name ++ rest.elim [] (equals :: ·) := by
  induction bs generalizing name with
  | nil => cases name <;> cases rest <;> simp [splitEquals]
  | cons b bs ih =>
    rw [splitEquals_cons]
    cases name with
    | nil =>
      by_cases hb : b = equals <;> cases rest <;> simp [hb]
    | cons a name =>
      by_cases hb : b = equals
      · simp only [hb, if_true, Prod.mk.injEq, List.mem_cons, List.cons_append, List.cons.injEq]
        grind
      · have hrest : (b :: (splitEquals bs).1, (splitEquals bs).2) = (a :: name, rest) ↔
            b = a ∧ splitEquals bs = (name, rest) := by
          simp [Prod.ext_iff, and_assoc]
        rw [if_neg hb, hrest, ih, List.mem_cons, List.cons_append, List.cons.injEq]
        grind

theorem attachedTo_eq_none_iff : attachedTo r = none ↔ r = [] := by
  cases r with
  | nil => simp [attachedTo]
  | cons b r => simp [attachedTo]

theorem attachedTo_eq_some_iff :
    attachedTo r = some v ↔ r = equals :: v.bytes ∨ r = v.bytes ∧ v ≠ "" ∧ v.bytes.head? ≠ some equals := by
  rw [ne_eq, ← OsString.bytes_eq_nil_iff]
  cases r with
  | nil =>
    constructor
    · intro h
      contradiction
    · rintro (h | ⟨h, hv, -⟩)
      · contradiction
      · exact absurd h.symm hv
  | cons b r =>
    rw [attachedTo, Option.some.injEq, OsString.ext_iff]
    dsimp only
    by_cases hb : b = equals
    · rw [if_pos hb]
      grind
    · rw [if_neg hb]
      grind

theorem find?_long_eq_some_iff :
    allowed.find? (⟨bs⟩ = OsString.ofText ·.long) = some f ↔
      f ∈ allowed ∧ bs = (OsString.ofText f.long).bytes := by
  rw [find?_eq_some_iff_of_unique, decide_eq_true_iff, OsString.ext_iff]
  intro g hf hg
  rw [decide_eq_true_iff] at hf hg
  exact Flag.long_injective (OsString.ofText_injective (hg.symm.trans hf))

theorem find?_short_eq_some_iff :
    allowed.find? (·.short? = some b) = some f ↔ f ∈ allowed ∧ f.short? = some b := by
  rw [find?_eq_some_iff_of_unique, decide_eq_true_iff]
  intro g hf hg
  rw [decide_eq_true_iff] at hf hg
  exact Flag.short?_injective hg hf

def afterName (attached : Option OsString) : List UInt8 := attached.elim [] fun v => equals :: v.bytes

theorem splitEquals_long {rest : Option (List UInt8)} :
    splitEquals r = ((OsString.ofText f.long).bytes, rest) ∧ rest.map OsString.mk = attached ↔
      r = (OsString.ofText f.long).bytes ++ afterName attached ∧ rest = attached.map OsString.bytes := by
  rw [splitEquals_eq_iff, afterName]
  cases rest <;> cases attached <;> simp [f.equals_notMem_long, OsString.ext_iff]
  grind

theorem ofLong_eq_flag_iff : ofLong allowed r = .flag f attached ↔
    f ∈ allowed ∧ r = (OsString.ofText f.long).bytes ++ afterName attached := by
  rw [ofLong]
  dsimp only
  constructor
  · intro h
    split at h
    · rename_i g hg
      obtain ⟨rfl, hattached⟩ := Argument.flag.inj h
      obtain ⟨hmem, hlong⟩ := find?_long_eq_some_iff.mp hg
      exact ⟨hmem, (splitEquals_long.mp ⟨Prod.ext hlong rfl, hattached⟩).1⟩
    · contradiction
  · rintro ⟨hmem, rfl⟩
    obtain ⟨hsplit, hattached⟩ := splitEquals_long.mpr ⟨rfl, rfl⟩
    rw [hsplit, find?_long_eq_some_iff.mpr ⟨hmem, rfl⟩]
    exact congrArg _ hattached

theorem ofShort_eq_flag_iff (hf : f ≠ .help) : ofShort allowed b r = .flag f attached ↔
    f ∈ allowed ∧ f.short? = some b ∧ attachedTo r = attached := by
  rw [ofShort]
  constructor
  · intro h
    split at h
    · rename_i g hg
      obtain ⟨rfl, hattached⟩ := Argument.flag.inj h
      obtain ⟨hmem, hshort⟩ := find?_short_eq_some_iff.mp hg
      rw [if_neg hf] at hattached
      exact ⟨hmem, hshort, hattached⟩
    · contradiction
  · rintro ⟨hmem, hshort, hattached⟩
    rw [find?_short_eq_some_iff.mpr ⟨hmem, hshort⟩]
    dsimp only
    rw [if_neg hf, hattached]

/-- An option is called by its whole name or by its letter. -/
theorem ofString_eq_flag_iff (hf : f ≠ .help) : ofString allowed s = .flag f attached ↔
    f ∈ allowed ∧ (s.bytes = dash :: dash :: ((OsString.ofText f.long).bytes ++ afterName attached) ∨
      ∃ b r, s.bytes = dash :: b :: r ∧ f.short? = some b ∧ attachedTo r = attached) := by
  unfold ofString
  split
  · rename_i a b r hs
    rw [hs]
    by_cases ha : a = dash
    · subst ha
      rw [if_neg (by simp)]
      by_cases hb : b = dash
      · subst hb
        have hshort (c : UInt8) (hc : f.short? = some c) : c ≠ dash := Flag.short?_ne_dash hc
        rw [if_neg (by simp)]
        cases r with
        | nil =>
          have hlong : (OsString.ofText f.long).bytes ++ afterName attached ≠ [] := by
            simp [f.long_ne_nil]
          simp only [List.isEmpty_nil, if_true, reduceCtorEq, false_iff]
          grind
        | cons c r =>
          rw [if_neg (by simp), ofLong_eq_flag_iff]
          grind
      · rw [if_pos hb, ofShort_eq_flag_iff hf]
        grind
    · rw [if_pos ha]
      simp [ha]
  · rename_i hshort
    simp only [reduceCtorEq, false_iff]
    rintro ⟨-, hs | ⟨b, r, hs, -⟩⟩
    · exact hshort _ _ _ hs
    · exact hshort _ _ _ hs

theorem eq_of_ofString_eq_escape (h : ofString allowed s = .escape) : s = "--" := by
  unfold ofString at h
  split at h
  · rename_i a b r hs
    split at h
    · contradiction
    · rename_i ha
      split at h
      · rw [ofShort] at h
        split at h <;> contradiction
      · rename_i hb
        split at h
        · rename_i hr
          rw [OsString.ext_iff, hs, List.isEmpty_iff.mp hr, Decidable.not_not.mp ha,
            Decidable.not_not.mp hb]
          rfl
        · rw [ofLong] at h
          dsimp only at h
          split at h <;> contradiction
  · contradiction

theorem mem_names_iff : s ∈ f.names ↔
    s.bytes = dash :: dash :: (OsString.ofText f.long).bytes ∨
      ∃ b, s.bytes = [dash, b] ∧ f.short? = some b := by
  have hletter (b : UInt8) : ("-" ++ ⟨[b]⟩ : OsString).bytes = [dash, b] := rfl
  simp only [Flag.names, List.mem_cons, List.mem_map, Option.mem_toList, OsString.ext_iff, f.bytes_long,
    hletter]
  simp [eq_comm, and_comm]

theorem ofString_eq_flag_none_iff (hf : f ≠ .help) :
    ofString allowed s = .flag f none ↔ f ∈ allowed ∧ s ∈ f.names := by
  rw [ofString_eq_flag_iff hf, mem_names_iff]
  simp [afterName, attachedTo_eq_none_iff]

/-- A value that is attached follows the name and an equals sign, or the letter. -/
theorem ofString_eq_flag_some_iff (hf : f ≠ .help) :
    ofString allowed s = .flag f (some v) ↔ f ∈ allowed ∧ Spelled f v [s] := by
  have hequals (name : OsString) : (name ++ "=" ++ v).bytes = name.bytes ++ equals :: v.bytes := by
    rw [OsString.bytes_append, OsString.bytes_append, List.append_assoc]
    rfl
  have hjoined (b : UInt8) : ("-" ++ ⟨[b]⟩ ++ v : OsString).bytes = dash :: b :: v.bytes := rfl
  rw [ofString_eq_flag_iff hf]
  refine and_congr_right fun _ => ⟨?_, ?_⟩
  · rintro (hs | ⟨b, r, hs, hb, hr⟩)
    · have hlong : s = "--" ++ f.long ++ "=" ++ v := by
        rw [OsString.ext_iff, hequals, hs, f.bytes_long]
        rfl
      rw [hlong]
      exact .equals List.mem_cons_self
    · rcases attachedTo_eq_some_iff.mp hr with rfl | ⟨rfl, hv, heq⟩
      · have hletter : s = "-" ++ ⟨[b]⟩ ++ "=" ++ v := OsString.ext hs
        rw [hletter]
        exact .equals (by simp [Flag.names, hb])
      · have hletter : s = "-" ++ ⟨[b]⟩ ++ v := OsString.ext hs
        rw [hletter]
        exact .joined hb hv heq
  · rintro (⟨_, _⟩ | ⟨hname⟩ | ⟨hb, hv, heq⟩)
    · rcases mem_names_iff.mp hname with h | ⟨b, h, hb⟩
      · exact .inl (by simp [hequals, h, afterName])
      · exact .inr ⟨b, equals :: v.bytes, by simp [hequals, h], hb, attachedTo_eq_some_iff.mpr (.inl rfl)⟩
    · exact .inr ⟨_, v.bytes, hjoined _, hb, attachedTo_eq_some_iff.mpr (.inr ⟨rfl, hv, heq⟩)⟩

end Argument
end SweepReport
