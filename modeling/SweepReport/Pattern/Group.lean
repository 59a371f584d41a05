import SweepReport.Pattern.Escape
import SweepReport.Text.Alphanumeric

/-! What stands at the start of a group: flags or a name. -/
namespace SweepReport.Pattern

def flagChars : List Char := ['i', 'm', 's', 'U', 'u', 'R', 'x']

/-- Flags with their places, the last first. A dash among them turns off those after it. -/
abbrev Flags := List (Char × Nat)

def Flags.state? (fs : Flags) (c : Char) : Option Bool :=
  let given := fs.reverse.map Prod.fst
  if given.contains c then some (!(given.takeWhile (· ≠ c)).contains '-') else none

/-- Flags, and the character that ends them. Without flags there is no group, and the question mark
repeats nothing. -/
def flags (m : Mode) (seen : Flags) : (cs : List Char) → Except Fault (Flags × Char × Rest cs)
  | [] => .error (.of .flagEnds m.size m.size)
  | c :: cs =>
    let here := m.here (c :: cs)
    if c = ':' || c = ')' then
      match seen with
      | ('-', p) :: _ => .error (.of .flagNegationLast p (p + 1))
      | _ =>
        if seen.isEmpty && c = ')' then
          .error (.of .nothingToRepeat (here.first - 1) (here.first - 1))
        else .ok (seen, c, ⟨cs, Nat.le_succ _⟩)
    else if c = '-' || flagChars.contains c then
      match seen.lookup c with
      | some p => .error ⟨if c = '-' then .flagNegationTwice else .flagTwice, [⟨p, p + 1⟩, here]⟩
      | none =>
        (flags m ((c, here.first) :: seen) cs).map fun (fs, x, r) =>
          (fs, x, ⟨r.1, Nat.le_succ_of_le r.2⟩)
    else .error ⟨.flagUnknown, [here]⟩

def isNameChar (first : Bool) (c : Char) : Bool :=
  c = '_' || if first then Text.isLetter c
    else c = '.' || c = '[' || c = ']' || Text.isAlphanumeric c

def nameChars (m : Mode) (first : Bool) :
    (cs : List Char) → Except Fault (List Char × Rest cs)
  | [] => .error (.of .nameEnds m.size m.size)
  | c :: cs =>
    if c = '>' then .ok ([], ⟨cs, Nat.le_succ _⟩)
    else if !isNameChar first c then .error ⟨.nameCharacter, [m.here (c :: cs)]⟩
    else (nameChars m false cs).map fun (n, r) => (c :: n, ⟨r.1, Nat.le_succ_of_le r.2⟩)

abbrev Names := List (List Char × Mark)

def groupName (m : Mode) (names : Names) (cs : List Char) : Except Fault (Names × Rest cs) := do
  let (name, r) ← nameChars m true cs
  let mark : Mark := ⟨m.place cs, m.place r.1 - 1⟩
  if name.isEmpty then throw ⟨.nameEmpty, [mark]⟩
  match names.lookup name with
  | some other => throw ⟨.nameTwice, [other, mark]⟩
  | none => return ((name, mark) :: names, r)

inductive Opening where
  | group (flags : Flags) (names : Names)
  /-- Flags without a group of their own. -/
  | flags (flags : Flags)

def opening (m : Mode) (names : Names) (cs : List Char) : Except Fault (Opening × Rest cs) :=
  let start := m.place cs - 1
  let ⟨r, hr⟩ := m.skip cs
  match r, hr with
  | '?' :: '!' :: a, _ => .error (.of .lookAround start (m.place a))
  | '?' :: '<' :: '!' :: a, _ => .error (.of .lookAround start (m.place a))
  | '?' :: 'P' :: '<' :: a, hr => named a (by simp at hr; omega)
  | '?' :: '<' :: a, hr => named a (by simp at hr; omega)
  | ['?'], _ => .error (.of .groupOpen start (start + 1))
  | '?' :: a, hr =>
    (flags m [] a).map fun (fs, c, s) =>
      (if c = ':' then .group fs names else .flags fs,
        ⟨s.1, Nat.le_trans s.2 (Nat.le_of_succ_le hr)⟩)
  | r, hr => .ok (.group [] names, ⟨r, hr⟩)
where
  named (a : List Char) (h : a.length ≤ cs.length) : Except Fault (Opening × Rest cs) :=
    (groupName m names a).map fun (names, s) => (.group [] names, s.within h)

end SweepReport.Pattern
