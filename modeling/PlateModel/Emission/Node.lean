import PlateModel.Evaluation.Generator

/-!
# Nodes

A compiled model consists of nodes, one for each name that data or a rule define. A node has a kind,
a default value, and a generator that gives its value or its distribution from its parents.
-/

namespace PlateModel

inductive NodeKind
  | logical
  | stochastic
  /-- A stochastic node with a known value. -/
  | observation
  deriving Repr, DecidableEq

def NodeKind.name : NodeKind → String
  | logical => "logical"
  | stochastic => "stochastic"
  | observation => "observation"

/-- A node of a compiled model. -/
structure Node where
  kind : NodeKind
  default : Float
  generator : Generator

/-- The names that a node's value or distribution is computed from. -/
def Node.parents (n : Node) : List String := n.generator.parameters

end PlateModel
