import SweepReport.Yaml.Token

/-! What a YAML document holds: scalars, sequences and mappings, and references to those that have a
name. -/
namespace SweepReport.Yaml

/-- A scalar with the tag it was given. -/
structure Leaf where
  text : String
  style : Style := .plain
  tag : Option String := none
  deriving DecidableEq, Repr

inductive Node where
  | scalar (leaf : Leaf)
  /-- What a number stands for. -/
  | reference (number : Nat)
  | sequence (items : List Node)
  | mapping (entries : List (Node × Node))
  deriving Repr

def Node.empty : Node := .scalar ⟨"", .plain, none⟩

structure Anchors where
  /-- The number under which each name is found. -/
  numbers : List (String × Nat) := []
  /-- What each number stands for: a scalar, or else more than that. The latest counts. -/
  nodes : List (Nat × Option Leaf) := []
  deriving DecidableEq, Repr

namespace Anchors

/-- A new anchor gets the number of the names known before it. A name that is used again keeps that
number from growing, so a later anchor may take over what an earlier one stands for. -/
def define (a : Anchors) (name : Option String) (node : Option Leaf) : Anchors :=
  match name with
  | none => a
  | some name =>
    let number := a.numbers.length
    { numbers := (name, number) :: a.numbers.filter (·.1 ≠ name)
      nodes := (number, node) :: a.nodes }

def refer? (a : Anchors) (name : String) : Option Node := (a.numbers.lookup name).map .reference

end Anchors

structure Document where
  root : Node
  /-- Those at its end. -/
  anchors : Anchors
  deriving Repr

namespace Document

def leaf? (d : Document) : Node → Option Leaf
  | .scalar leaf => some leaf
  | .reference n => (d.anchors.nodes.lookup n).join
  | _ => none

/-- The entries of a document that is a mapping of scalars to scalars, none of an empty one. -/
def entries? (d : Document) : Option (List (Leaf × Leaf)) :=
  match d.root with
  | .scalar leaf => if leaf.style = .plain && leaf.text.isEmpty then some [] else none
  | .mapping es => es.mapM fun (k, v) => return (← d.leaf? k, ← d.leaf? v)
  | _ => none

end Document
end SweepReport.Yaml
