import SweepReport.FileTree
import SweepReport.Label
import SweepReport.Metric
import SweepReport.Sample.Row

/-! What can be wrong with benchmark results, and the sentence that says so. -/
namespace SweepReport

inductive HeaderFault where
  | io (cause : IoFault)
  | encoding (fault : EncodingFault)
  deriving DecidableEq, Repr

inductive Malformed where
  | header (fault : HeaderFault)
  | missingColumns (names : List String)
  /-- Rows are counted from one, the header left out. -/
  | row (number : Nat) (fault : RowFault)
  | noRecords (number : Nat)
  deriving DecidableEq, Repr

def Malformed.message : Malformed → String
  | .header (.io cause) => "Read header: " ++ cause.message
  | .header (.encoding fault) => "Read header: " ++ fault.message
  | .missingColumns names => "Missing columns " ++ ", ".intercalate names
  | .row number fault => s!"Row {number}: " ++ fault.message
  | .noRecords number => s!"Row {number}: missing throughput_num"

inductive Problem where
  | io (path : Path) (cause : IoFault)
  | malformed (path : Path) (cause : Malformed)
  | invalidLabel (path : Path) (label : String)
  | noSamples (path : Path)
  /-- A second result of one metric for a configuration, found at the path. -/
  | duplicate (label : Label) (metric : Metric) (path : Path)
  | incomplete (label : Label) (missing : Metric)
  deriving DecidableEq, Repr

namespace Problem

def message : Problem → String
  | io path cause => "IO error on " ++ path.quoted ++ ": " ++ cause.message
  | malformed path cause => "Malformed results in " ++ path.quoted ++ ": " ++ cause.message
  | invalidLabel path label =>
    "Invalid configuration label " ++ Text.quoted label ++ " in " ++ path.quoted
      ++ ", expected \"<threads>, <n> files\""
  | noSamples path => "No samples in " ++ path.quoted
  | duplicate label metric path =>
    "Configuration " ++ label.text ++ " has more than one " ++ metric.name
      ++ " result (second one in " ++ path.quoted ++ ")"
  | incomplete label missing => "Configuration " ++ label.text ++ " has no " ++ missing.name ++ " result"

def chain : Problem → List String
  | p@(io _ cause) => [p.message, cause.message]
  | p => [p.message]

end Problem
end SweepReport
