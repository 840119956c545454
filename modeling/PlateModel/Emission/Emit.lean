import PlateModel.State.Basic

/-!
# Emitting nodes

A resolved state is emitted as one node for each name that data or a rule define. A name that comes
to a number has that number as its default; a stochastic rule for such a name is an observation.

* `State.emit`: the nodes of a state, data first, then logical rules, then stochastic rules.
-/

namespace PlateModel

/-- A number as the default of a node. -/
def Number.asDefault (n : Number) : Except Fault Float :=
  match n.toFloat? with
  | some x => .ok x
  | none => .error (.evaluation .overflow)

namespace State

/-- The value that a name comes to, as the default of its node. -/
def default? (s : State) (x : String) : Except Fault (Option Float) := do
  match (← orFault (s.outcome (.name x))).number? with
  | some n => return some (← n.asDefault)
  | none => return none

/-- The node of a name that data define and no stochastic rule. -/
def dataNode (v : Number) : Except Fault Node := do
  let default ← v.asDefault
  return { kind := .logical, default, generator := ← Generator.ofExpr (.ofNumber v) }

/-- The node of a logical rule. -/
def logicalNode (s : State) (x : String) (rhs : Expr) : Except Fault Node := do
  let default := (← s.default? x).getD 0.0
  return { kind := .logical, default, generator := ← Generator.ofExpr rhs }

/-- The node of a stochastic rule. -/
def stochasticNode (s : State) (x : String) (rule : Generator) : Except Fault Node := do
  match ← s.default? x with
  | some default => return { kind := .observation, default, generator := rule }
  | none => return { kind := .stochastic, default := 0.0, generator := rule }

/-- Nodes for the entries of a table, added to those that are there. -/
def emitEach {α : Type} (node : String → α → Except Fault Node) (t : Assoc Node) :
    List (String × α) → Except Fault (Assoc Node)
  | [] => .ok t
  | (x, a) :: rest => do emitEach node (t.put x (← node x a)) rest

/-- The nodes of a state. -/
def emit (s : State) : Except Fault (Assoc Node) := do
  let free := s.data.entries.filter fun (x, _) => !s.stochastic.contains x
  let t ← emitEach (fun _ => dataNode) .empty free
  let t ← emitEach s.logicalNode t s.logical.entries
  emitEach s.stochasticNode t s.stochastic.entries

end State

end PlateModel
