import PlateModel.Evaluation.Generator
import PlateModel.Graph.Digraph

/-!
# Bayesian networks

A network has named vertices and edges from parents to children that never form a cycle. A
stochastic vertex has a distribution, and perhaps a kernel that gives its distribution for values of
its parents; a deterministic vertex has a function of its parents. The number of a vertex is its
position, and it never changes.

Which vertices are observed, and with which values, is kept apart from vertices and edges, because
networks that differ in nothing else share these (`Networks`).

* `Network.addStochastic`, `Network.addDeterministic`, `Network.addEdge`: the ways to build a
  network.
-/

namespace PlateModel

/-- What a vertex is. -/
inductive Role
  | stochastic (distribution : Value) (kernel : Option Generator)
  | deterministic (function : Generator)

def Role.isStochastic : Role → Bool
  | stochastic .. => true
  | deterministic _ => false

structure Vertex where
  name : String
  role : Role

/-- The vertices and edges of a network. Edges go from the number of a parent to that of a child. -/
structure Skeleton where
  capacity : Option Int
  vertices : List Vertex
  edges : Digraph Nat

/-- Which vertices are observed, and their values by name. -/
structure Observations where
  observed : List Bool
  values : Assoc Value

structure Network where
  skeleton : Skeleton
  observations : Observations

namespace Skeleton

/-- The names of the vertices by number. -/
def names (s : Skeleton) : List String := s.vertices.map (·.name)

/-- The number of a vertex. -/
def number? (s : Skeleton) (name : String) : Option Nat := s.names.findIdx? (· = name)

/-- The number of a vertex that must exist. -/
def number (s : Skeleton) (name : String) : Except Fault Nat :=
  match s.number? name with
  | some i => .ok i
  | none => .error (.network (.unknownVertex name))

/-- A vertex that must exist, with its number. -/
def find (s : Skeleton) (name : String) : Except Fault (Nat × Vertex) := do
  let i ← s.number name
  match s.vertices[i]? with
  | some v => return (i, v)
  | none => throw (.network (.unknownVertex name))

/-- The names of the vertices with some numbers, in ascending order of the numbers. -/
def namesOf (s : Skeleton) (numbers : List Nat) : List String :=
  (numbers.mergeSort (· ≤ ·)).filterMap (s.names[·]?)

/-- The numbers of the vertices that are stochastic, or of those that are not. -/
def numbersOf (s : Skeleton) (stochastic : Bool) : List Nat :=
  (List.range s.vertices.length).filter fun i =>
    (s.vertices[i]?).any (·.role.isStochastic = stochastic)

/-- The names of the parents of a vertex. -/
def parents (s : Skeleton) (name : String) : Except Fault (List String) := do
  let i ← s.number name
  return s.namesOf (s.edges.predecessors i)

/-- The names of the children of a vertex. -/
def children (s : Skeleton) (name : String) : Except Fault (List String) := do
  let i ← s.number name
  return s.namesOf (s.edges.successors i)

/-- The distribution of a stochastic vertex. -/
def distribution (s : Skeleton) (name : String) : Except Fault Value := do
  let (_, v) ← s.find name
  match v.role with
  | .stochastic d _ => return d
  | .deterministic _ => throw (.network (.noDistribution name))

/-- The function of a deterministic vertex. -/
def function (s : Skeleton) (name : String) : Except Fault Generator := do
  let (_, v) ← s.find name
  match v.role with
  | .deterministic f => return f
  | .stochastic .. => throw (.network (.noFunction name))

/-- The skeleton with one more vertex. -/
def addVertex (s : Skeleton) (v : Vertex) : Except Fault Skeleton := do
  if (s.number? v.name).isSome then throw (.network (.duplicateVertex v.name))
  if let some limit := s.capacity then
    if limit ≤ s.vertices.length then throw (.network (.capacity v.name limit))
  return { s with vertices := s.vertices ++ [v] }

/-- The skeleton with one more edge, and whether it is new. A vertex is not connected with itself,
and no edge may close a cycle. -/
def addEdge (s : Skeleton) (parent child : String) : Except Fault (Skeleton × Bool) := do
  let i ← s.number parent
  let j ← s.number child
  if i = j || s.edges.contains (i, j) then return (s, false)
  if s.edges.reaches j i then throw (.network (.cycle parent child))
  return ({ s with edges := s.edges ++ [(i, j)] }, true)

end Skeleton

namespace Network

/-- A network without vertices. -/
def empty (capacity : Option Int) : Network := ⟨⟨capacity, [], []⟩, ⟨[], .empty⟩⟩

def size (n : Network) : Nat := n.skeleton.vertices.length

/-- The network with one more vertex, which is not observed. -/
def addVertex (n : Network) (v : Vertex) : Except Fault Network := do
  let skeleton ← n.skeleton.addVertex v
  return ⟨skeleton, { n.observations with observed := n.observations.observed ++ [false] }⟩

/-- Whether a vertex is observed. Vertices that were added through another network may lie beyond
what is known. -/
def isObserved (n : Network) (i : Nat) : Except Fault Bool :=
  match n.observations.observed[i]? with
  | some b => .ok b
  | none => .error (.evaluation .outOfBounds)

/-- Adds a stochastic vertex; gives its number. A vertex that is observed may have a value. The
vertex stays even if its observation cannot be kept. -/
def addStochastic (n : Network) (name : String) (distribution : Value) (kernel : Option Generator)
    (observed : Bool) (value : Value) : Except Fault Nat × Network :=
  match n.addVertex ⟨name, .stochastic distribution kernel⟩ with
  | .error e => (.error e, n)
  | .ok m =>
    match m.isObserved n.size with
    | .error e => (.error e, m)
    | .ok _ =>
      let values := match observed, value with
        | false, _ | _, .missing => m.observations.values
        | true, v => m.observations.values.put name v
      (.ok n.size, { m with
        observations := ⟨m.observations.observed.set n.size observed, values⟩ })

/-- Adds a deterministic vertex; gives its number. -/
def addDeterministic (n : Network) (name : String) (function : Generator) :
    Except Fault (Nat × Network) := do
  return (n.size, ← n.addVertex ⟨name, .deterministic function⟩)

/-- Adds an edge from a parent to a child; gives whether it is new. -/
def addEdge (n : Network) (parent child : String) : Except Fault (Bool × Network) := do
  let (skeleton, new) ← n.skeleton.addEdge parent child
  return (new, { n with skeleton })

/-- The names of the observed vertices. -/
def observedNames (n : Network) : List String :=
  (n.skeleton.names.zip n.observations.observed).filterMap fun (x, b) => if b then some x else none

end Network

/-- Networks that have vertices and edges in common and differ in what is observed. -/
structure Networks where
  skeleton : Skeleton
  observations : List Observations

namespace Networks

def single (n : Network) : Networks := ⟨n.skeleton, [n.observations]⟩

def get? (ns : Networks) (k : Nat) : Option Network :=
  (ns.observations[k]?).map fun o => ⟨ns.skeleton, o⟩

/-- Replaces a network; its vertices and edges become those of all. -/
def set (ns : Networks) (k : Nat) (n : Network) : Networks :=
  ⟨n.skeleton, ns.observations.set k n.observations⟩

/-- Adds a network that shares its vertices and edges. -/
def push (ns : Networks) (n : Network) : Networks :=
  ⟨ns.skeleton, ns.observations ++ [n.observations]⟩

def size (ns : Networks) : Nat := ns.observations.length

end Networks

end PlateModel
