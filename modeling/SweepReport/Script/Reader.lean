import SweepReport.Script.Token

/-! Scripts read from text. -/
namespace SweepReport.Script

def isWord (text : String) : Token → Bool
  | .word w => plainText? w == some text.toList
  | _ => false

def skipStops : List Token → List Token
  | .stop :: ts => skipStops ts
  | ts => ts

def simple : List Token → List Word × List Redirect × List Token
  | .word w :: ts =>
    let (ws, rs, ts) := simple ts
    (w :: ws, rs, ts)
  | .into append :: .word w :: ts =>
    let (ws, rs, ts) := simple ts
    (ws, ⟨append, w⟩ :: rs, ts)
  | ts => ([], [], ts)

mutual

def commands? : Nat → List Token → Option (Statement × List Token)
  | 0, _ => none
  | fuel + 1, ts =>
    match skipStops ts with
    | [] => some (.nothing, [])
    | t :: ts =>
      if isWord "done" t then some (.nothing, t :: ts)
      else do
        let (first, ts) ← chain? fuel (t :: ts)
        let (rest, ts) ← commands? fuel ts
        return (.sequence first rest, ts)

def chain? : Nat → List Token → Option (Statement × List Token)
  | 0, _ => none
  | fuel + 1, ts => do
    let (first, ts) ← command? fuel ts
    links? fuel first ts

def links? : Nat → Statement → List Token → Option (Statement × List Token)
  | 0, _, _ => none
  | fuel + 1, first, ts =>
    match ts with
    | [] => some (first, [])
    | .stop :: ts => some (first, ts)
    | .and :: ts => do
      let (second, ts) ← command? fuel (skipStops ts)
      links? fuel (.both first second) ts
    | .or :: ts => do
      let (second, ts) ← command? fuel (skipStops ts)
      links? fuel (.either first second) ts
    | _ => none

def command? : Nat → List Token → Option (Statement × List Token)
  | 0, _ => none
  | fuel + 1, ts =>
    match ts with
    | [] => none
    | t :: ts =>
      if isWord "for" t then
        match ts with
        | .word name :: keyword :: ts => do
          let name ← plainText? name
          if !isWord "in" keyword then none
          else
            let (words, _, ts) := simple ts
            match skipStops ts with
            | start :: ts =>
              if !isWord "do" start then none
              else
                let (body, ts) ← commands? fuel ts
                match ts with
                | _ :: ts =>
                  let (_, redirects, ts) := simple ts
                  return (.forEach name words body redirects, ts)
                | [] => none
            | [] => none
        | _ => none
      else
        match simple (t :: ts) with
        | ([], [], _) => none
        | (words, redirects, ts) => some (.simple words redirects, ts)

end

def read? (s : String) : Option Statement := do
  let cs := s.toList
  let ts ← tokens? (cs.length + 1) cs
  let (c, rest) ← commands? (4 * ts.length + 4) ts
  if rest.isEmpty then some c else none

end SweepReport.Script
