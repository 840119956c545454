import PlateModel.Network.Basic
import PlateModel.Random.Laws

/-!
# Ancestral sampling

A joint sample gives every vertex a value, parents before children: an observed vertex its value, a
deterministic vertex the value of its function at the values of its parents, any other vertex a draw
from its distribution for these values.

* `Network.sample`: a joint sample; it always starts from the same random bits.
-/

namespace PlateModel

open PlateModel.Random

/-- A draw from what a vertex has as its distribution. -/
def Value.draw (v : Value) : ExceptT Failure Drawing Value :=
  match v.distribution? with
  | some d => d.draw
  | none => throw .lacksFeature

namespace Network

/-- A computation that may fail and draws. -/
abbrev Sampling := ExceptT Fault Drawing

/-- A failed evaluation ends the sampling. -/
def Sampling.orFault {α : Type} (m : ExceptT Failure Drawing α) : Sampling α :=
  m.adapt Fault.evaluation

/-- The value of a generator for values of the parents. -/
def generated (g : Generator) (parents : Assoc Value) : Sampling Value :=
  match g.call [] parents with
  | .ok v => return v
  | .error e => throw (.call e)

/-- The values of the parents of a vertex. -/
def parentValues (n : Network) (samples : Assoc Value) (i : Nat) : Assoc Value :=
  .ofList ((n.skeleton.edges.predecessors i).filterMap fun p =>
    match n.skeleton.names[p]? with
    | some x => (samples.get? x).map fun v => (x, v)
    | none => none)

/-- The value of a vertex in a sample. -/
def sampleVertex (n : Network) (samples : Assoc Value) (i : Nat) (v : Vertex) :
    Sampling Value := do
  let parents := n.parentValues samples i
  match v.role with
  | .deterministic f => return (← generated f parents).unwrap
  | .stochastic distribution kernel =>
    let observed ← n.isObserved i
    match observed, n.observations.values.get? v.name with
    | true, some value => return value
    | _, _ =>
      let distribution ← match kernel with
        | some g => generated g parents
        | none => pure distribution
      Sampling.orFault distribution.draw

/-- Gives values to vertices one after the other. -/
def sampleAll (n : Network) (samples : Assoc Value) : List Nat → Sampling (Assoc Value)
  | [] => return samples
  | i :: rest =>
    match n.skeleton.vertices[i]? with
    | none => sampleAll n samples rest
    | some v => do
      let value ← n.sampleVertex samples i v
      sampleAll n (samples.put v.name value) rest

/-- The numbers of the vertices, parents before children. -/
def order (n : Network) : List Nat := n.skeleton.edges.topological (List.range n.size)

/-- A joint sample of all vertices. -/
def sample (n : Network) : Except Fault (Assoc Value) :=
  ((n.sampleAll .empty n.order).run Source.start).1

end Network

end PlateModel
