import SweepReport.Yaml.Lexer
import SweepReport.Yaml.Node

/-! Words of structure as documents. A node is read up to the word after it. -/
namespace SweepReport.Yaml

abbrev Shorthands := List (String × String)

namespace Shorthands

def usual : Shorthands := [("!", "!"), ("!!", "tag:yaml.org,2002:")]

def tag? (h : Shorthands) (handle suffix : String) : Option String :=
  if handle.isEmpty then some suffix else (h.lookup handle).map (· ++ suffix)

end Shorthands

abbrev Remaining (ts : List Token) := { r : List Token // r.length ≤ ts.length }

namespace Remaining

def all (ts : List Token) : Remaining ts := ⟨ts, Nat.le_refl _⟩

def tail (ts : List Token) : Remaining ts := ⟨ts.tail, by simp⟩

theorem length_le_of_cons {t : Token} {ts rs : List Token} (h : (t :: rs).length ≤ ts.length) :
    rs.length ≤ ts.length := Nat.le_of_succ_le h

end Remaining

def misplaced : List Token → Fault
  | .broken e :: _ => e
  | _ => .malformed

def isBroken : List Token → Bool
  | .broken _ :: _ => true
  | _ => false

structure Properties where
  anchor : Option String := none
  tag : Option String := none
  deriving DecidableEq, Repr

namespace Properties

def isEmpty (p : Properties) : Bool := p.anchor.isNone && p.tag.isNone

def complete (h : Shorthands) (anchor : Option String) (tag : Option (String × String))
    (r : List Token) : Except Fault Properties :=
  if isBroken r then .error (misplaced r)
  else match tag with
    | none => .ok ⟨anchor, none⟩
    | some (handle, suffix) => (orMalformed (h.tag? handle suffix)).map fun t => ⟨anchor, some t⟩

def read (h : Shorthands) (ts : List Token) : Except Fault (Properties × Remaining ts) :=
  match ts with
  | .anchor a :: .tag handle suffix :: r =>
    (complete h (some a) (some (handle, suffix)) r).map fun p => (p, ⟨r, by simp; omega⟩)
  | .tag handle suffix :: .anchor a :: r =>
    (complete h (some a) (some (handle, suffix)) r).map fun p => (p, ⟨r, by simp; omega⟩)
  | .anchor a :: r => (complete h (some a) none r).map fun p => (p, Remaining.tail _)
  | .tag handle suffix :: r =>
    (complete h none (some (handle, suffix)) r).map fun p => (p, Remaining.tail _)
  | r => .ok ({}, Remaining.all r)

end Properties

/-- A part of a document with the anchors up to its end and the words that follow. -/
abbrev Part (α : Type) (ts : List Token) := α × Anchors × Remaining ts

namespace Part
variable {α β : Type} {ts rs : List Token}

def within (h : rs.length ≤ ts.length) : Part α rs → Part α ts
  | (x, a, r) => (x, a, ⟨r.1, Nat.le_trans r.2 h⟩)

def map (f : α → β) : Part α ts → Part β ts
  | (x, a, r) => (f x, a, r)

end Part

/-- Words after which an entry of a block sequence is empty. A sequence as far in as the mapping that
holds it also ends with the entry of the mapping. -/
def itemEnds (asFarIn : Bool) : List Token :=
  if asFarIn then [.blockEntry, .key, .value, .blockEnd] else [.blockEntry, .blockEnd]

def blockMappingEnds : List Token := [.key, .value, .blockEnd]
def flowSequenceEnds : List Token := [.flowEntry, .flowSequenceEnd]
def flowMappingEnds : List Token := [.flowEntry, .flowMappingEnd]

mutual

def node (h : Shorthands) (asFarIn : Bool) (a : Anchors) (ts : List Token) :
    Except Fault (Part Node ts) :=
  match ts with
  | .alias name :: r => (orMalformed (a.refer? name)).map fun n => (n, a, Remaining.tail _)
  | ts => do
    let (p, ⟨rs, hr⟩) ← Properties.read h ts
    match rs, hr, asFarIn with
    | .scalar text style :: r, hr, _ =>
      let leaf : Leaf := ⟨text, style, p.tag⟩
      return (.scalar leaf, a.define p.anchor (some leaf), ⟨r, Remaining.length_le_of_cons hr⟩)
    | .flowSequence :: r, hr, _ =>
      have : r.length + 1 ≤ ts.length := hr
      let x ← flowItems h (a.define p.anchor none) r
      return (x.map .sequence).within (by omega)
    | .flowMapping :: r, hr, _ =>
      have : r.length + 1 ≤ ts.length := hr
      let x ← flowEntries h (a.define p.anchor none) r
      return (x.map .mapping).within (by omega)
    | .blockSequence :: r, hr, _ =>
      have : r.length + 1 ≤ ts.length := hr
      let x ← blockItems h false (a.define p.anchor none) r
      return (x.map .sequence).within (by omega)
    | .blockMapping :: r, hr, _ =>
      have : r.length + 1 ≤ ts.length := hr
      let x ← blockEntries h (a.define p.anchor none) r
      return (x.map .mapping).within (by omega)
    | .blockEntry :: r, hr, true =>
      have : r.length + 1 ≤ ts.length := hr
      let x ← blockItems h true (a.define p.anchor none) (.blockEntry :: r)
      return (x.map .sequence).within hr
    | r, hr, _ =>
      if p.isEmpty then throw (misplaced r)
      else
        let leaf : Leaf := ⟨"", .plain, p.tag⟩
        return (.scalar leaf, a.define p.anchor (some leaf), ⟨r, hr⟩)
termination_by 6 * ts.length + 1
decreasing_by all_goals omega

def nodeBefore (h : Shorthands) (ends : List Token) (asFarIn : Bool) (a : Anchors)
    (ts : List Token) : Except Fault (Part Node ts) :=
  if ts.head?.any ends.contains then .ok (.empty, a, Remaining.all ts)
  else node h asFarIn a ts
termination_by 6 * ts.length + 2

def valueBefore (h : Shorthands) (ends : List Token) (asFarIn : Bool) (a : Anchors)
    (ts : List Token) : Except Fault (Part Node ts) :=
  match ts with
  | .value :: r => do return (← nodeBefore h ends asFarIn a r).within (Nat.le_succ _)
  | ts => .ok (.empty, a, Remaining.all ts)
termination_by 6 * ts.length + 3

def blockItems (h : Shorthands) (asFarIn : Bool) (a : Anchors) (ts : List Token) :
    Except Fault (Part (List Node) ts) :=
  match ts with
  | .blockEntry :: r => do
    let (n, a, ⟨s, hs⟩) ← nodeBefore h (itemEnds asFarIn) false a r
    let x ← blockItems h asFarIn a s
    return (x.map (n :: ·)).within (by simp; omega)
  | .blockEnd :: r => .ok ([], a, if asFarIn then Remaining.all (.blockEnd :: r) else Remaining.tail _)
  | ts => if asFarIn then .ok ([], a, Remaining.all ts) else .error (misplaced ts)
termination_by 6 * ts.length + 0

def blockEntries (h : Shorthands) (a : Anchors) (ts : List Token) :
    Except Fault (Part (List (Node × Node)) ts) :=
  match ts with
  | .key :: r => do
    let (k, a, ⟨s, hs⟩) ← nodeBefore h blockMappingEnds true a r
    let (v, a, ⟨t, ht⟩) ← valueBefore h blockMappingEnds true a s
    let x ← blockEntries h a t
    return (x.map ((k, v) :: ·)).within (by simp; omega)
  | .blockEnd :: r => .ok ([], a, Remaining.tail _)
  | ts => .error (misplaced ts)
termination_by 6 * ts.length + 0

/-- An item of a flow sequence. With a question mark or a colon it is a mapping of one entry. -/
def flowItem (h : Shorthands) (a : Anchors) (ts : List Token) : Except Fault (Part Node ts) :=
  match ts with
  | .key :: r => do
    let (k, a, ⟨s, hs⟩) ←
      if r.head?.any (.value :: flowSequenceEnds).contains then
        .ok (Node.empty, a, Remaining.tail r)
      else node h false a r
    let x ← valueBefore h flowSequenceEnds false a s
    return (x.map fun v => .mapping [(k, v)]).within (by simp; omega)
  | ts => node h false a ts
termination_by 6 * ts.length + 4

/-- The items of a flow sequence. A comma may follow the last one. -/
def flowItems (h : Shorthands) (a : Anchors) (ts : List Token) :
    Except Fault (Part (List Node) ts) :=
  match ts with
  | .flowSequenceEnd :: r => .ok ([], a, Remaining.tail _)
  | ts => do
    let (n, a, ⟨s, hs⟩) ← flowItem h a ts
    match s, hs with
    | .flowEntry :: r, hs =>
      have : r.length < ts.length := hs
      let x ← flowItems h a r
      return (x.map (n :: ·)).within (by omega)
    | .flowSequenceEnd :: r, hs => return ([n], a, ⟨r, Remaining.length_le_of_cons hs⟩)
    | s, _ => throw (misplaced s)
termination_by 6 * ts.length + 5

def flowPair (h : Shorthands) (a : Anchors) (ts : List Token) :
    Except Fault (Part (Node × Node) ts) :=
  match ts with
  | .key :: r => do
    let (k, a, ⟨s, hs⟩) ← nodeBefore h (.value :: flowMappingEnds) false a r
    let x ← valueBefore h flowMappingEnds false a s
    return (x.map (k, ·)).within (by simp; omega)
  | ts => do return (← node h false a ts).map (·, .empty)
termination_by 6 * ts.length + 4

def flowEntries (h : Shorthands) (a : Anchors) (ts : List Token) :
    Except Fault (Part (List (Node × Node)) ts) :=
  match ts with
  | .flowMappingEnd :: r => .ok ([], a, Remaining.tail _)
  | ts => do
    let (e, a, ⟨s, hs⟩) ← flowPair h a ts
    match s, hs with
    | .flowEntry :: r, hs =>
      have : r.length < ts.length := hs
      let x ← flowEntries h a r
      return (x.map (e :: ·)).within (by omega)
    | .flowMappingEnd :: r, hs => return ([e], a, ⟨r, Remaining.length_le_of_cons hs⟩)
    | s, _ => throw (misplaced s)
termination_by 6 * ts.length + 5

end

end SweepReport.Yaml
