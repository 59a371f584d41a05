import SweepReport.Label
import SweepReport.Text.Blank
import SweepReport.Text.Quoted

/-! Labels read from text: thread count, comma, digits and the word `files`, with white space
between them and around. The count has no comma and is taken without the white space around it; one
that is all white space keeps its last character. -/
namespace SweepReport

structure UnreadableLabel where
  text : String
  deriving DecidableEq, Repr

def UnreadableLabel.message (u : UnreadableLabel) : String :=
  "Unsupported configuration label " ++ Text.quoted u.text

namespace Label

def splitComma? : List Char → Option (List Char × List Char)
  | [] => none
  | c :: cs => if c = ',' then some ([], cs) else (splitComma? cs).map fun r => (c :: r.1, r.2)

/-- The thread count in the text before the comma; none in an empty one. -/
def threadsOf? (cs : List Char) : Option (List Char) :=
  match Text.trim cs with
  | [] => cs.getLast?.map ([·])
  | t => some t

def batchOf? (cs : List Char) : Option UInt64 :=
  let cs := Text.trimStart cs
  let digits := cs.takeWhile Numeral.isDigit
  let rest := Text.trimStart (cs.dropWhile Numeral.isDigit)
  if unit.isPrefixOf rest && (rest.drop unit.length).all Text.isBlank then
    (Numeral.readWord 10 digits).toOption
  else none

def ofChars? (cs : List Char) : Option Label :=
  match splitComma? cs with
  | none => none
  | some (before, after) =>
    match threadsOf? before, batchOf? after with
    | some threads, some batch => some ⟨⟨String.ofList threads⟩, batch⟩
    | _, _ => none

def ofText (s : String) : Except UnreadableLabel Label :=
  match ofChars? s.toList with
  | some l => .ok l
  | none => .error ⟨s⟩

end Label
end SweepReport
