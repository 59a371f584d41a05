import SweepReport.Collection

/-! The lines that are printed for configurations and for their metrics. -/
namespace SweepReport

def blanks (width : Nat) (s : String) : String := String.ofList (List.replicate (width - s.length) ' ')

def padRight (width : Nat) (s : String) : String := s ++ blanks width s

def padLeft (width : Nat) (s : String) : String := blanks width s ++ s

def Listed.line (l : Listed) : String :=
  padRight 10 l.metric.name ++ " " ++ padRight 16 l.label.text ++ " -> " ++ l.dir.fileName.lossy

def tableLine (threads files runtime throughput : String) : String :=
  " ".intercalate [padLeft 8 threads, padLeft 8 files, padLeft 14 runtime, padLeft 16 throughput]

def tableHead : String := tableLine "threads" "files" "runtime (ms)" "records / ms"

def metricPlaces : Nat := 4

def entryLine (l : Label) (m : Metrics Float) : String :=
  tableLine l.threads.text (String.ofList (Numeral.decimalText l.batch.toNat))
    (Numeral.fixed metricPlaces m.runtime) (Numeral.fixed metricPlaces m.throughput)

def tableLines (t : ResultTable Float) : List String :=
  tableHead :: t.entries.map fun e => entryLine e.1 e.2

def linesText (ls : List String) : String := String.join (ls.map (· ++ "\n"))

/-- Indents the lines of a message that have text, the first by a mark of its own. -/
def indentLines (first rest : String) : Bool → List (List Char) → List String
  | _, [] => []
  | isFirst, l :: ls =>
    if l.isEmpty then "" :: indentLines first rest isFirst ls
    else ((if isFirst then first else rest) ++ String.ofList l) :: indentLines first rest false ls

def linesOf : List Char → List Char → List (List Char)
  | line, [] => [line.reverse]
  | line, c :: cs => if c = '\n' then line.reverse :: linesOf [] cs else linesOf (c :: line) cs

def indented (first rest s : String) : String :=
  "\n".intercalate (indentLines first rest true (linesOf [] s.toList))

/-- A lone cause is indented; several are numbered from the outermost. -/
def causeText (index count : Nat) (cause : String) : String :=
  if count = 1 then indented "    " "    " cause
  else indented (padLeft 4 (toString index) ++ ": ") "      " cause

def failureText : List String → String
  | [] => "Error: "
  | [message] => "Error: " ++ message
  | message :: causes =>
    "Error: " ++ message ++ "\n\nCaused by:" ++
      String.join (causes.zipIdx.map fun c => "\n" ++ causeText c.2 causes.length c.1)

end SweepReport
