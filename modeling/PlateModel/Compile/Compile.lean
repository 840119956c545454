import PlateModel.Compile.Pass
import PlateModel.State.Seed

/-!
# Compilation

A model is compiled against data: the data are seeded, and then the passes run in the order of their
requirements.

* `compile`: the compiled model, or the fault that ended the compilation.
* `compileTraced`: the same together with the program after each pass that has run.
-/

namespace PlateModel

/-- A compiled model: its flat program, its nodes, and the state they come from. -/
structure Compiled where
  program : Program
  state : State
  nodes : Assoc Node

/-- The program after each pass that has run. -/
abbrev Trace := List (Pass × Program)

/-- Runs passes one after the other, up to the first fault. -/
def runPasses (s : State) (p : Program) : List Pass → Except Fault (Program × State) × Trace
  | [] => (.ok (p, s), [])
  | pass :: rest =>
    match pass.run p s with
    | (.error e, _) => (.error e, [])
    | (.ok p, s) =>
      let (r, trace) := runPasses s p rest
      (r, (pass, p) :: trace)

/-- The emitted nodes of a state. -/
def State.emitted (s : State) : Except Fault (Assoc Node) :=
  match s.nodes with
  | some nodes => .ok nodes
  | none => .error (.missingResult Pass.emission.name)

/-- Compiles a program against data; also gives the program after each pass that has run. -/
def compileTraced (p : Program) (data : List (String × Datum)) : Except Fault Compiled × Trace :=
  match State.seed data .empty, Pass.order with
  | (.error e, _), _ | _, .error e => (.error e, [])
  | (.ok (), s), .ok passes =>
    let (r, trace) := runPasses s p passes
    let compiled := do
      let (program, state) ← r
      return { program, state, nodes := ← state.emitted }
    (compiled, trace)

/-- Compiles a program against data. -/
def compile (p : Program) (data : List (String × Datum)) : Except Fault Compiled :=
  (compileTraced p data).1

end PlateModel
