import PlateModel.Emission.Emit
import PlateModel.Expansion.Resolve
import PlateModel.Graph.Digraph
import PlateModel.Normal.Links
import PlateModel.Normal.Validate
import PlateModel.Text.Lowercase

/-!
# Passes

A compilation consists of passes. Each takes a program to a program and may change the state; what
it requires of the program is what other passes establish. So passes are put into an order in which
each comes after the passes that it requires. Only registered passes count. A pass is ready when its
last requirement has been scheduled, and passes that are ready wait in a queue, those that require
nothing in the order of registration.

* `schedule`: the order, if there is one.
* `Pass.run`: what a pass does.
* `Pass.order`: all passes in the order of their requirements.
-/

namespace PlateModel

/-! ## Scheduling -/

variable {α : Type} [DecidableEq α]

/-- How many different registered passes a pass requires. -/
def requirementCount (registered : List α) (requires : α → List α) (p : α) : Int :=
  ((requires p).eraseDups.filter (registered.contains ·)).length

/-- Passes in an order in which each comes after those it requires. There is none if requirements
are cyclic, or if a pass is registered twice. -/
def schedule (registered : List α) (requires : α → List α) : Option (List α) :=
  let missing := requirementCount registered requires
  let ready := registered.eraseDups.filter fun p => missing p = 0
  let dependents := fun p => registered.filter fun q => (requires q).contains p
  let order := orderFrom dependents registered.length ⟨ready, missing⟩
  if order.length = registered.length then some order else none

/-! ## Passes -/

inductive Pass
  /-- Refuses programs of the wrong shape. -/
  | validation
  /-- Moves link functions to right-hand sides. -/
  | links
  /-- Expands functions of stochastic variables. -/
  | special
  /-- Unrolls loops, decides conditionals, makes definitions rules. -/
  | resolution
  /-- Emits the nodes. -/
  | emission
  deriving Repr, DecidableEq

namespace Pass

def name : Pass → String
  | validation => "SyntaxValidationPass"
  | links => "LinkFunctionPass"
  | special => "SpecialFunctionPass"
  | resolution => "StructuralResolutionPass"
  | emission => "GraphEmissionPass"

def all : List Pass := [validation, links, special, resolution, emission]

/-- The passes that must have run before a pass. -/
def requires : Pass → List Pass
  | validation => []
  | links => [validation]
  | special => [links]
  | resolution => [special]
  | emission => [resolution]

/-- The program after a pass. -/
def run (pass : Pass) (p : Program) : Compiling Program :=
  match pass with
  | validation => p.validate
  | links => p.unlink
  | special => p.expandSpecial
  | resolution => return (← p.resolve).1
  | emission => do
    let nodes ← (← get).emit
    modify fun s => { s with nodes := some nodes }
    return p

/-- All passes in the order of their requirements. -/
def order : Except Fault (List Pass) :=
  match schedule all requires with
  | some passes => .ok passes
  | none => .error .passCycle

/-- A name in words joined by underscores; every capital of ASCII but the first character starts a
word. -/
def splitWords : List Char → List Char
  | [] => []
  | c :: cs => c :: cs.flatMap fun d => if 'A' ≤ d && d ≤ 'Z' then ['_', d] else [d]

/-- A name in lower-case words joined by underscores. -/
def snakeCase (cs : List Char) : List Char := Text.lowercase (splitWords cs)

/-- The file that the tree after a pass of some name is dumped to. -/
def dumpFile (name : String) : String :=
  "after_" ++ String.ofList (snakeCase name.toList) ++ ".sexpr"

end Pass

end PlateModel
