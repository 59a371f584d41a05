import SweepReport.Pattern.Meaning
import SweepReport.Pattern.Reader

/-! Search patterns, as far as they can be refused: they read as a tree that is not nested too deep,
each part of it stands for something, and no place depends on where words start and end. -/
namespace SweepReport.Pattern

inductive Refusal where
  | malformed (cause : Fault)
  /-- Where words start and end is not searched for. -/
  | wordBoundary
  deriving DecidableEq, Repr

def meaning (pattern : List Char) : Except Fault Meaning := do
  let t ← read pattern
  match t.tooDeep? nestLimit with
  | some m => throw ⟨.tooDeep, [m]⟩
  | none => t.check false {}

def refusal? (pattern : List Char) : Option Refusal :=
  match meaning pattern with
  | .error e => some (.malformed e)
  | .ok s => if s.boundary then some .wordBoundary else none

def Refusal.chain (pattern : List Char) : Refusal → List String
  | malformed cause => ["error building NFA", "error parsing regex", cause.text pattern]
  | wordBoundary =>
    ["unsupported regex feature for DFAs: cannot build DFAs for regexes with Unicode word "
      ++ "boundaries; switch to ASCII word boundaries, or heuristically enable Unicode word "
      ++ "boundaries or use a different regex engine"]

end SweepReport.Pattern
