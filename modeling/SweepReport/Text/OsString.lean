import SweepReport.Text.Quoted
import SweepReport.Text.Utf8

/-! Strings of the system: bytes, which mostly but not always are a text in UTF-8. -/
namespace SweepReport

@[ext] structure OsString where
  bytes : List UInt8
  deriving DecidableEq, Repr

namespace OsString

def ofText (s : String) : OsString := ⟨s.toUTF8.data.toList⟩

instance : Coe String OsString := ⟨ofText⟩

instance : Append OsString := ⟨fun a b => ⟨a.bytes ++ b.bytes⟩⟩

/-- By the bytes, which orders texts by their characters. -/
instance : Ord OsString := ⟨compareOn bytes⟩

instance : LT OsString := ltOfOrd

def isEmpty (s : OsString) : Bool := s.bytes.isEmpty

def size (s : OsString) : Nat := s.bytes.length

def hasNul (s : OsString) : Bool := s.bytes.contains 0

/-- What bytes are read as. -/
inductive Chunk where
  | char (c : Char)
  /-- The beginning of a character that does not go on, or a byte that begins none. -/
  | stray (bytes : List UInt8)

/-- How many bytes in front begin one character, where they do not make it up. -/
def strayCount : List UInt8 → Nat
  | a :: b :: bs =>
    if 0xe0 ≤ a && a ≤ 0xf4 && Text.isSecond a b then
      if 0xf0 ≤ a && bs.head?.any Text.isTail then 3 else 2
    else 1
  | _ => 1

theorem strayCount_pos (bs : List UInt8) : 0 < strayCount bs := by
  unfold strayCount
  split
  · split
    · split <;> decide
    · decide
  · decide

def chunks (bs : List UInt8) : List Chunk :=
  match bs with
  | [] => []
  | b :: bs =>
    match h : Text.firstChar? (b :: bs) with
    | some (c, rest) =>
      have := Text.length_of_firstChar? h
      .char c :: chunks rest
    | none =>
      have := strayCount_pos (b :: bs)
      let n := strayCount (b :: bs)
      .stray ((b :: bs).take n) :: chunks ((b :: bs).drop n)
termination_by bs.length
decreasing_by
  · assumption
  · simp only [List.length_drop, List.length_cons]
    omega

/-- The text with a replacement character for what is none. -/
def lossy (s : OsString) : String :=
  String.ofList ((chunks s.bytes).map fun
    | .char c => c
    | .stray _ => '\ufffd')

def text? (s : OsString) : Option String := if ofText s.lossy = s then some s.lossy else none

def hexByte (b : UInt8) : List Char :=
  let digit (n : Nat) : Char := (Nat.digitChar n).toUpper
  ['\\', 'x', digit (b.toNat / 16), digit (b.toNat % 16)]

/-- In quotes as a text is, with stray bytes by their numbers. -/
def quoted (s : OsString) : String :=
  String.ofList ('"' :: (chunks s.bytes).flatMap (fun
    | .char c => Text.quoteChar c
    | .stray bs => bs.flatMap hexByte) ++ ['"'])

end OsString
end SweepReport
