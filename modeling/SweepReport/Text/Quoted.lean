import SweepReport.Text.Hidden

/-! The quoted form in which messages show paths and labels: double quotes around the text, a
backslash before what would end or break it, and code points for what cannot be seen. -/
namespace SweepReport.Text

def hexDigits (n : Nat) : List Char := Nat.toDigits 16 n

/-- A single quote needs no escape, for the quotes around the text are double. -/
def quoteChar (c : Char) : List Char :=
  match c with
  | '"' => ['\\', '"']
  | '\\' => ['\\', '\\']
  | '\n' => ['\\', 'n']
  | '\r' => ['\\', 'r']
  | '\t' => ['\\', 't']
  | '\x00' => ['\\', '0']
  | c => if isHidden c then ['\\', 'u', '\x7b'] ++ hexDigits c.toNat ++ ['\x7d'] else [c]

def quoted (s : String) : String :=
  String.ofList ('"' :: s.toList.flatMap quoteChar ++ ['"'])

end SweepReport.Text
