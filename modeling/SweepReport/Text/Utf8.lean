/-! Bytes read as UTF-8. A reading fails at the first byte that starts no complete character, and
that position is what it reports. -/
namespace SweepReport.Text

def isTail (b : UInt8) : Bool := 0x80 ≤ b && b ≤ 0xbf

/-- The second byte a leading byte allows: the shortest form only, and no surrogates. -/
def isSecond (a b : UInt8) : Bool :=
  if a = 0xe0 then 0xa0 ≤ b && b ≤ 0xbf
  else if a = 0xed then 0x80 ≤ b && b ≤ 0x9f
  else if a = 0xf0 then 0x90 ≤ b && b ≤ 0xbf
  else if a = 0xf4 then 0x80 ≤ b && b ≤ 0x8f
  else isTail b

def joinBits (high : Nat) (b : UInt8) : Nat := high * 64 + b.toNat % 64

def firstChar? : List UInt8 → Option (Char × List UInt8)
  | [] => none
  | a :: r =>
    if a < 0x80 then some (Char.ofNat a.toNat, r)
    else if 0xc2 ≤ a && a ≤ 0xdf then
      match r with
      | b :: r => if isTail b then some (Char.ofNat (joinBits (a.toNat % 32) b), r) else none
      | [] => none
    else if 0xe0 ≤ a && a ≤ 0xef then
      match r with
      | b :: c :: r =>
        if isSecond a b && isTail c then
          some (Char.ofNat (joinBits (joinBits (a.toNat % 16) b) c), r)
        else none
      | _ => none
    else if 0xf0 ≤ a && a ≤ 0xf4 then
      match r with
      | b :: c :: d :: r =>
        if isSecond a b && isTail c && isTail d then
          some (Char.ofNat (joinBits (joinBits (joinBits (a.toNat % 8) b) c) d), r)
        else none
      | _ => none
    else none

theorem length_of_firstChar? {bs r : List UInt8} {c : Char} (h : firstChar? bs = some (c, r)) :
    r.length < bs.length := by
  unfold firstChar? at h
  repeat' split at h
  all_goals first
    | contradiction
    | (simp only [Option.some.injEq, Prod.mk.injEq] at h; obtain ⟨-, rfl⟩ := h; simp; try omega)

def decodeFrom (position : Nat) (bs : List UInt8) (done : List Char) : Except Nat (List Char) :=
  match bs with
  | [] => .ok done.reverse
  | b :: bs =>
    match h : firstChar? (b :: bs) with
    | none => .error position
    | some (c, r) =>
      have := length_of_firstChar? h
      decodeFrom (position + c.utf8Size) r (c :: done)
termination_by bs.length
decreasing_by assumption

def decode (bs : List UInt8) : Except Nat String := (decodeFrom 0 bs []).map String.ofList

end SweepReport.Text
