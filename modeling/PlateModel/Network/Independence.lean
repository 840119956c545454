import PlateModel.Network.Basic

/-!
# Conditional independence

Two vertices are separated by a set of vertices if in the moral graph of their ancestors no path
between them avoids the set. The moral graph connects every vertex with its parents, and the parents
of every vertex with each other.

* `Network.independent`: whether two vertices are separated by given ones.
-/

namespace PlateModel

namespace Digraph

variable {α : Type} [DecidableEq α]

/-- The edges of the moral graph, in both directions. -/
def moral (g : Digraph α) : Digraph α :=
  let married := g.flatMap fun (x, c) => (g.predecessors c).filterMap fun y =>
    if x = y then none else some (x, y)
  g ++ g.reversed ++ married

/-- Whether every path between two vertices in the moral graph of the ancestors goes through given
ones. -/
def separates (g : Digraph α) (x y : α) (given : List α) : Bool :=
  let ancestral := g.reversed.reachable (x :: y :: given).eraseDups
  let open_ := (g.restrict ancestral.contains).moral.restrict fun v => !given.contains v
  !open_.reaches x y

end Digraph

namespace Network

/-- The vertices that a question is conditioned on: the given ones, or all that are observed. -/
def conditioningSet (n : Network) (given : Option (List String)) : Except Fault (List Nat) :=
  match given with
  | some names => names.mapM n.skeleton.number
  | none => .ok (n.observations.observed.zipIdx.filterMap fun (b, i) => if b then some i else none)

/-- Whether two vertices are independent given others. -/
def independent (n : Network) (x y : String) (given : Option (List String)) :
    Except Fault Bool := do
  let i ← n.skeleton.number x
  let j ← n.skeleton.number y
  if i = j then throw (.network (.sameVertex x))
  let conditioned ← n.conditioningSet given
  if conditioned.contains i || conditioned.contains j then
    throw (.network .testedInCondition)
  return n.skeleton.edges.separates i j conditioned

end Network

end PlateModel
