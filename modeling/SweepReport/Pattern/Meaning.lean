import SweepReport.Pattern.Tree

/-! What the parts of a pattern may stand for. As long as characters are not those of Unicode, nothing
may match octets that are no text, and no set goes beyond the first half of the table. -/
namespace SweepReport.Pattern

structure Meaning where
  /-- Whether characters are those of Unicode. -/
  unicode : Bool := true
  /-- Whether a word's start or end is looked for by what Unicode calls a word. -/
  boundary : Bool := false
  deriving DecidableEq, Repr

def Literal.check (l : Literal) (inSet : Bool) (s : Meaning) : Except Fault Meaning :=
  if s.unicode || l.char.toNat < 0x80 then .ok s
  else if l.isOctet then .error ⟨.notUtf8, [l.mark]⟩
  else if inSet then .error ⟨.notAscii, [l.mark]⟩
  else .ok s

def Item.check (i : Item) (mark : Mark) (inSet : Bool) (s : Meaning) : Except Fault Meaning :=
  match i with
  | .literal c isOctet => Literal.check ⟨c, isOctet, mark⟩ inSet s
  | .dot => if s.unicode then .ok s else .error ⟨.notUtf8, [mark]⟩
  | .set negated => if negated && !s.unicode then .error ⟨.notUtf8, [mark]⟩ else .ok s
  | .property known =>
    if !s.unicode then .error ⟨.notAscii, [mark]⟩
    else if !known then .error ⟨.propertyUnknown, [mark]⟩
    else .ok s
  | .anchor => .ok s
  | .boundary => .ok { s with boundary := s.boundary || s.unicode }

def Join.enter (j : Join) (s : Meaning) : Meaning :=
  match j with
  | .group (some unicode) => { s with unicode }
  | _ => s

def Join.leave (j : Join) (mark : Mark) (before after : Meaning) : Except Fault Meaning :=
  match j with
  | .group _ => .ok { after with unicode := before.unicode }
  | .brackets true => if after.unicode then .ok after else .error ⟨.notUtf8, [mark]⟩
  | _ => .ok after

def Join.isSet : Join → Bool
  | .brackets _ => true
  | _ => false

namespace Tree

mutual

def check (inSet : Bool) (s : Meaning) : Tree → Except Fault Meaning
  | empty _ => .ok s
  | item i m => i.check m inSet s
  | range a b => a.check inSet s >>= b.check inSet
  | flags unicode _ => .ok { s with unicode := unicode.getD s.unicode }
  | join j m ts => do j.leave m s (← checkAll (inSet || j.isSet) (j.enter s) ts)

def checkAll (inSet : Bool) (s : Meaning) : List Tree → Except Fault Meaning
  | [] => .ok s
  | t :: ts => do checkAll inSet (← t.check inSet s) ts

end

end Tree
end SweepReport.Pattern
