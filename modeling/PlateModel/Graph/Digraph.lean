/-!
# Directed graphs

A directed graph is the list of its edges in the order in which they were added. Where an edge says
what depends on what, items are put into an order in which each comes after all that it depends on.

* `orderFrom`: the items in order, from a queue and the counts of what is missing.
* `reachable`: what can be reached from some vertices along edges.
* `Digraph.topological`: vertices in an order in which every edge points forward; those that become
  ready later come later.
* `Digraph.findCycle?`: the first cycle that a depth-first search along the edges meets.
-/

namespace PlateModel

/-! ## Ordering by dependency

An item is ready when the last of what it depends on has been put in order; items that are ready
wait in a queue. -/

section Ordering

/-- Items that wait, and how many of the items that each one depends on are not in order yet. -/
structure Waiting (α : Type) where
  queue : List α
  missing : α → Int

variable {α : Type} [DecidableEq α]

namespace Waiting

/-- Counts down what is missing for an item; it is ready when nothing is. -/
def countDown (w : Waiting α) (x : α) : Waiting α :=
  let left := w.missing x - 1
  { queue := if left = 0 then w.queue ++ [x] else w.queue
    missing := fun y => if y = x then left else w.missing y }

end Waiting

/-- Puts items from the front of the queue in order, at most so many. -/
def orderFrom (dependents : α → List α) : Nat → Waiting α → List α
  | 0, _ => []
  | n + 1, w =>
    match w.queue with
    | [] => []
    | x :: queue => x :: orderFrom dependents n ((dependents x).foldl .countDown { w with queue })

end Ordering

/-! ## Edges -/

/-- The edges of a directed graph, each from its tail to its head. -/
abbrev Digraph (α : Type) := List (α × α)

namespace Digraph

variable {α : Type} [DecidableEq α]

/-- The heads of the edges from a vertex, in order. -/
def successors (g : Digraph α) (x : α) : List α := (g.filter (·.1 = x)).map (·.2)

/-- The tails of the edges to a vertex, in order. -/
def predecessors (g : Digraph α) (x : α) : List α := (g.filter (·.2 = x)).map (·.1)

/-- The graph with its edges turned around. -/
def reversed (g : Digraph α) : Digraph α := g.map fun (x, y) => (y, x)

/-- The edges between vertices that satisfy a condition. -/
def restrict (g : Digraph α) (p : α → Bool) : Digraph α := g.filter fun (x, y) => p x && p y

/-- Heads of edges from some vertices that are not among them. -/
def frontier (g : Digraph α) (seen : List α) : List α :=
  ((g.filter fun (x, y) => seen.contains x && !seen.contains y).map (·.2)).eraseDups

/-- Some vertices and what can be reached from them in at most so many steps. -/
def reachableIn (g : Digraph α) : Nat → List α → List α
  | 0, seen => seen
  | n + 1, seen =>
    match g.frontier seen with
    | [] => seen
    | new => reachableIn g n (seen ++ new)

/-- Some vertices and what can be reached from them. A path has no more steps than there are edges.
-/
def reachable (g : Digraph α) (starts : List α) : List α := g.reachableIn g.length starts

/-- Whether there is a path from one vertex to another. -/
def reaches (g : Digraph α) (x y : α) : Bool := (g.reachable [x]).contains y

/-! ## Topological order and cycles -/

/-- Some vertices in an order in which edges point forward. Vertices on cycles, and what is behind
them, are left out. -/
def topological (g : Digraph α) (vertices : List α) : List α :=
  let missing (x : α) : Int := (g.predecessors x).length
  orderFrom g.successors vertices.length ⟨vertices.filter (missing · = 0), missing⟩

/-- The edges between the members of a list, from each to the next. -/
def steps : List α → List (α × α)
  | x :: y :: rest => (x, y) :: steps (y :: rest)
  | _ => []

/-- Searches depth-first for a cycle through a vertex at the end of a path, along at most so many
edges. The result is the cycle, or what has been seen without meeting one. -/
def search (g : Digraph α) : Nat → List α → α → List α → Except (List (α × α)) (List α)
  | 0, _, _, seen => .ok seen
  | n + 1, path, x, seen =>
    let path := path ++ [x]
    (g.successors x).foldlM (fun seen y =>
      if path.contains y then .error (steps (path.dropWhile (· ≠ y) ++ [y]))
      else if seen.contains y then .ok seen
      else search g n path y seen) (x :: seen)

/-- Searches from each of some vertices in turn. -/
def searchFrom (g : Digraph α) (bound : Nat) : List α → List α → Except (List (α × α)) (List α)
  | [], seen => .ok seen
  | x :: rest, seen =>
    if seen.contains x then searchFrom g bound rest seen
    else
      match search g bound [] x seen with
      | .ok seen => searchFrom g bound rest seen
      | .error cycle => .error cycle

/-- The edges of a cycle, if there is one. -/
def findCycle? (g : Digraph α) (vertices : List α) : Option (List (α × α)) :=
  match g.searchFrom (vertices.length + 1) vertices [] with
  | .error cycle => some cycle
  | .ok _ => none

end Digraph

end PlateModel
