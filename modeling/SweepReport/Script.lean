/-! Scripts of simple commands: sequences, conditions on the command before, loops over words, and
output sent to files. -/
namespace SweepReport.Script

/-- A stretch of a word. Within quotes an expansion is not divided at blanks. -/
inductive Piece where
  | text (s : List Char)
  | parameter (name : List Char) (quoted : Bool)
  deriving DecidableEq, Repr

abbrev Word := List Piece

structure Redirect where
  /-- Whether the output goes after what is in the file. -/
  append : Bool
  target : Word
  deriving DecidableEq, Repr

inductive Statement where
  | nothing
  | simple (words : List Word) (redirects : List Redirect)
  | sequence (first second : Statement)
  /-- The second runs when the first succeeds. -/
  | both (first second : Statement)
  /-- The second runs when the first fails. -/
  | either (first second : Statement)
  | forEach (name : List Char) (words : List Word) (body : Statement) (redirects : List Redirect)
  deriving Repr

end SweepReport.Script
