import SweepReport.Yaml.Buffer

/-! The words of structure of a YAML text. -/
namespace SweepReport.Yaml

inductive Style where
  | plain
  | singleQuoted
  | doubleQuoted
  | literal
  | folded
  deriving DecidableEq, Repr

inductive Token where
  | version (major minor : Nat)
  /-- A handle of tags and what it stands for. -/
  | shorthand (handle stem : String)
  | documentStart
  | documentEnd
  /-- A sequence or a mapping whose entries stand on lines of their own. -/
  | blockSequence
  | blockMapping
  | blockEnd
  | blockEntry
  | flowSequence
  | flowSequenceEnd
  | flowMapping
  | flowMappingEnd
  | flowEntry
  | key
  | value
  | alias (name : String)
  | anchor (name : String)
  | tag (handle suffix : String)
  | scalar (text : String) (style : Style)
  | textEnd
  /-- No further word can be read. -/
  | broken (fault : Fault)
  deriving DecidableEq, Repr

end SweepReport.Yaml
