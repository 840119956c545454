import PlateModel.Emission.Node
import PlateModel.Network.Basic

/-!
# The network of a compiled model

The network has a vertex for every node of a compiled model and an edge for every parent of a node.
Vertices are added parents first. A node is evaluated as it is added, with the values of its logical
parents and the defaults of the others: the distribution of a stochastic vertex is the one that its
generator gives then, and the generator becomes its kernel.

* `Network.ofNodes`: the network of some nodes.
-/

namespace PlateModel

/-- An edge from every parent to its node. -/
def dependencies (nodes : Assoc Node) : Digraph String :=
  nodes.entries.flatMap fun (x, n) => n.parents.map fun p => (p, x)

/-- The names of nodes and of their parents in the order in which they are mentioned. -/
def mentions (nodes : Assoc Node) : List String :=
  firstAppearances (nodes.entries.flatMap fun (x, n) => x :: n.parents)

/-- Every parent of a node must be a node. -/
def checkParents (nodes : Assoc Node) : Except Fault Unit :=
  match (dependencies nodes).find? fun (p, _) => !nodes.contains p with
  | some (p, x) => .error (.network (.missingNode p x))
  | none => .ok ()

/-- The names of the nodes, parents first. -/
def nodeOrder (nodes : Assoc Node) : Except Fault (List String) := do
  checkParents nodes
  let g := dependencies nodes
  match g.findCycle? (mentions nodes) with
  | some edges => throw (.network (.cyclicNodes edges))
  | none => return g.topological (mentions nodes)

namespace Network

/-- What a node's generator gives for the current values. -/
def generatedAt (current : Assoc Value) (n : Node) : Except Fault Value :=
  let parents := n.parents.filterMap fun p => (current.get? p).map fun v => (p, v)
  match n.generator.call [] (.ofList parents) with
  | .ok v => .ok v
  | .error e => .error (.call e)

/-- Adds the vertex of a node, and gives the value that its children see. -/
def addNode (net : Network) (current : Assoc Value) (x : String) (n : Node) :
    Except Fault (Network × Value) := do
  let v ← generatedAt current n
  match n.kind with
  | .logical =>
    let value ← orFault v.floats?
    let (_, net) ← net.addDeterministic x n.generator
    return (net, .tensor value)
  | kind =>
    let observed := kind = .observation
    let (added, net) := net.addStochastic x v (some n.generator) observed (.float n.default)
    let _ ← added
    return (net, .cell .real (.float n.default))

/-- Adds the edges from the parents of a node. -/
def addParents (net : Network) (x : String) : List String → Except Fault Network
  | [] => .ok net
  | p :: rest => do
    let (_, net) ← net.addEdge p x
    addParents net x rest

/-- Adds nodes one after the other. -/
def addNodes (nodes : Assoc Node) (net : Network) (current : Assoc Value) :
    List String → Except Fault Network
  | [] => .ok net
  | x :: rest =>
    match nodes.get? x with
    | none => addNodes nodes net current rest
    | some n => do
      let (net, value) ← net.addNode current x n
      let net ← net.addParents x n.parents
      addNodes nodes net (current.put x value) rest

/-- The network of some nodes. -/
def ofNodes (nodes : Assoc Node) (capacity : Option Int) : Except Fault Network := do
  let order ← nodeOrder nodes
  (empty capacity).addNodes nodes .empty order

end Network

end PlateModel
