import SweepReport.Yaml.Document

/-! The documents of a YAML text. -/
namespace SweepReport.Yaml

/-- Directives before a document: a version that is known, at most once, and handles, each at most
once. -/
def directives (versioned : Bool) (h : Shorthands) :
    List Token → Except Fault (Shorthands × List Token)
  | .version major minor :: r =>
    if !versioned && major = 1 && (minor = 1 || minor = 2) then directives true h r
    else .error .malformed
  | .shorthand handle stem :: r =>
    if (h.lookup handle).isSome then .error .malformed
    else directives versioned (h ++ [(handle, stem)]) r
  | ts => .ok (h, ts)

def isOuter : Token → Bool
  | .version .. | .shorthand .. | .documentStart | .documentEnd | .textEnd => true
  | _ => false

def opensMarked : Token → Bool
  | .version .. | .shorthand .. | .documentStart => true
  | _ => false

def content (marked : Bool) (h : Shorthands) (ts : List Token) :
    Except Fault (Document × List Token) := do
  let (root, anchors, r) ←
    if marked && ts.head?.any isOuter then .ok (Node.empty, {}, Remaining.all ts)
    else node h false {} ts
  match r.1 with
  | .broken e :: _ => throw e
  | .documentEnd :: r => return (⟨root, anchors⟩, r)
  | r => return (⟨root, anchors⟩, r)

def markedDocument (ts : List Token) : Except Fault (Document × List Token) := do
  let (given, r) ← directives false [] ts
  match r with
  | .documentStart :: r => content true (given ++ Shorthands.usual) r
  | r => throw (misplaced r)

/-- The first document of a text, which need not be marked. One without text is empty. -/
def firstDocument (ts : List Token) : Except Fault (Document × List Token) :=
  if ts.head? = some .textEnd then .ok (⟨.empty, {}⟩, ts)
  else if ts.head?.any opensMarked then markedDocument ts
  else content false Shorthands.usual ts

/-- Checks that no other document follows. One that does is read before it is refused. -/
def checkOnly (ts : List Token) : Except Fault Unit :=
  match ts.dropWhile (· = .documentEnd) with
  | .textEnd :: _ => .ok ()
  | r => markedDocument r >>= fun _ => .error .malformed

end SweepReport.Yaml
