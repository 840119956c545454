import Mathlib.Data.List.Chain
import PlateModel.Proofs.Compile.Points
import PlateModel.Proofs.Emission.Nodes

/-!
# What holds at every point of a compilation

A compilation goes from the empty state to its final one by edits, so at each of its points, also
when it fails later on, a symbol has at most one rule and no logical one if data bind it, and no
rule is removed or replaced. If the compilation returns, then its nodes describe its final state.

* `Stages`: the programs and states between the passes; `compile_stages`, `Stages.compile_eq`: a
  compilation returns if and only if there are such.
* `compile_of_resolved`: what a compilation comes to once its program is resolved.
* `compile_points`: the points of a compilation, and the nodes at its end.
-/

namespace PlateModel

theorem Pass.order_eq : order = .ok all := rfl

/-- What the passes of a compilation that returns have made of the program and of the state. -/
structure Stages (p : Program) (data : List (String × Datum)) (c : Compiled) where
  seeded : State
  valid : Program
  unlinked : Program
  expanded : Program
  resolved : State
  tally : Tally
  seed : State.seed data .empty = (.ok (), seeded)
  validate : p.validate = .ok valid
  unlink : valid.unlink = .ok unlinked
  expandSpecial : unlinked.expandSpecial = .ok expanded
  resolve : expanded.resolve seeded = (.ok (c.program, tally), resolved)
  emit : resolved.emit = .ok c.nodes
  state : c.state = { resolved with nodes := some c.nodes }

section Stages

variable {p q : Program} {data : List (String × Datum)} {t : State} {c : Compiled}

theorem stages_of_compiling (h : compiling p data .empty = (.ok q, t)) :
    ∃ nodes, Nonempty (Stages p data ⟨q, t, nodes⟩) := by
  obtain ⟨⟨⟩, s, hseed, h⟩ := run_bind_eq_ok.1 h
  rw [Pass.order_eq] at h
  obtain ⟨_, _, hpasses, h⟩ := run_bind_eq_ok.1 h
  cases hpasses
  obtain ⟨valid, _, hvalidate, h⟩ := run_bind_eq_ok.1 h
  obtain ⟨unlinked, _, hunlink, h⟩ := run_bind_eq_ok.1 h
  obtain ⟨expanded, _, hspecial, h⟩ := run_bind_eq_ok.1 h
  obtain ⟨_, u, hresolution, h⟩ := run_bind_eq_ok.1 h
  obtain ⟨_, _, hemission, h⟩ := run_bind_eq_ok.1 h
  obtain ⟨rfl, rfl⟩ := run_pure_eq_ok.1 h
  -- the first three passes do nothing to the state
  obtain ⟨hvalid, rfl⟩ := Prod.mk.inj hvalidate
  obtain ⟨hunlinked, rfl⟩ := Prod.mk.inj hunlink
  obtain ⟨hexpanded, rfl⟩ := Prod.mk.inj hspecial
  obtain ⟨⟨resolved, tally⟩, _, hresolve, h⟩ := run_bind_eq_ok.1 hresolution
  obtain ⟨rfl, rfl⟩ := run_pure_eq_ok.1 h
  rw [Pass.run_emission] at hemission
  cases hemit : u.emit with
  | error e => rw [hemit] at hemission; cases hemission
  | ok nodes =>
    rw [hemit] at hemission
    cases hemission
    exact ⟨nodes, ⟨⟨s, valid, unlinked, expanded, u, tally, hseed, hvalid, hunlinked, hexpanded,
      hresolve, hemit, rfl⟩⟩⟩

/-- The last of the passes stores what the state is emitted as. -/
theorem emit_of_compiling (h : compiling p data .empty = (.ok q, t)) :
    ∃ nodes, t.nodes = some nodes ∧ t.emit = .ok nodes := by
  obtain ⟨nodes, ⟨stages⟩⟩ := stages_of_compiling h
  rw [show t = _ from stages.state]
  exact ⟨nodes, rfl, stages.emit⟩

/-- A compilation that returns has gone through its passes. -/
theorem compile_stages (h : compile p data = .ok c) : Nonempty (Stages p data c) := by
  obtain ⟨h, hnodes⟩ := compile_eq_ok.1 h
  obtain ⟨nodes, ⟨stages⟩⟩ := stages_of_compiling h
  rw [show c.state = _ from stages.state] at hnodes
  cases hnodes
  exact ⟨stages⟩

/-- Once its program is resolved, a compilation comes to what the state is emitted as. -/
theorem compile_of_resolved {valid unlinked expanded : Program} {tally : Tally} {s : State}
    (hseed : State.seed data .empty = (.ok (), s)) (hvalid : p.validate = .ok valid)
    (hunlinked : valid.unlink = .ok unlinked) (hexpanded : unlinked.expandSpecial = .ok expanded)
    (hresolve : expanded.resolve s = (.ok (q, tally), t)) :
    compile p data = t.emit.map fun nodes => ⟨q, { t with nodes := some nodes }, nodes⟩ := by
  have hvalidation : Pass.validation.run p s = (.ok valid, s) := congrArg (·, s) hvalid
  have hlinks : Pass.links.run valid s = (.ok unlinked, s) := congrArg (·, s) hunlinked
  have hspecial : Pass.special.run unlinked s = (.ok expanded, s) := congrArg (·, s) hexpanded
  have hresolution : Pass.resolution.run expanded s = (.ok q, t) := by
    rw [Pass.run, run_bind_of_ok hresolve]
    rfl
  rw [compile, compileTraced, hseed, Pass.order_eq]
  dsimp only
  rw [runPasses_eq, Pass.all, passing, run_bind_of_ok hvalidation, passing, run_bind_of_ok hlinks,
    passing, run_bind_of_ok hspecial, passing, run_bind_of_ok hresolution, passing, run_bind,
    Pass.run_emission]
  cases t.emit <;> rfl

/-- A compilation returns if its passes do, one after the other. -/
theorem Stages.compile_eq (stages : Stages p data c) : compile p data = .ok c := by
  obtain ⟨s, valid, unlinked, expanded, t, tally, hseed, hvalid, hunlinked, hexpanded, hresolve,
    hemit, hstate⟩ := stages
  rw [compile_of_resolved hseed hvalid hunlinked hexpanded hresolve, hemit]
  exact congrArg (fun state => Except.ok (Compiled.mk c.program state c.nodes)) hstate.symm

/-- The final state of a compilation that returns is consistent. -/
theorem consistent_of_compile (h : compile p data = .ok c) : c.state.Consistent := by
  have hstate : c.state = (compiling p data .empty).2 := by rw [(compile_eq_ok.1 h).1]
  exact hstate ▸ State.consistent_empty.edits (compiling_edits p data)

/-- The nodes of a compilation that returns describe its final state. -/
theorem describes_of_compile (h : compile p data = .ok c) : c.state.Describes c.nodes := by
  obtain ⟨hcompiling, hnodes⟩ := compile_eq_ok.1 h
  obtain ⟨nodes, hnodes', hemit⟩ := emit_of_compiling hcompiling
  cases hnodes.symm.trans hnodes'
  exact State.describes_of_emit (consistent_of_compile h) hemit

end Stages

/-- A program whose definitions are all absorbed in the first round is resolved to them. -/
theorem Program.resolve_of_absorbed {p : Program} {ss : List Stmt} {k n : Nat} {s t : State}
    (h : (Resolution.start p.statements).round s = (.ok (⟨[], ss, [], ⟨0, 0, k, 0⟩⟩, n), t)) :
    p.resolve s = (.ok (⟨ss, p.location⟩, ⟨0, 0, k, 0⟩), t) := by
  have hdone : (⟨[], ss, [], ⟨0, 0, k, 0⟩⟩ : Resolution).round t =
      (.ok (⟨[], ss, [], ⟨0, 0, k, 0⟩⟩, 0), t) := by
    show (Except.ok (Resolution.mk [] (ss ++ []) [] ⟨0, 0, k, 0⟩, 0), t) = _
    rw [List.append_nil]
  have hrun : (Resolution.start p.statements).run s = (.ok ⟨[], ss, [], ⟨0, 0, k, 0⟩⟩, t) := by
    rw [Resolution.run_of_round h, Resolution.run_of_round hdone, if_pos rfl, ite_self]
  rw [Program.resolve, run_bind_of_ok hrun]
  show (Except.ok (Program.mk (ss ++ []) p.location, Tally.mk 0 0 k 0), t) = _
  rw [List.append_nil]

/-- A sampled variable with a sampled mean. -/
def hierarchical : Program :=
  ⟨[.sample (.name "y") (.call "dnorm" [.name "mu", .literal (.int 1) 0] none) none,
    .sample (.name "mu") (.call "dnorm" [.literal (.int 0) 0, .literal (.int 1) 0] none) none],
    none⟩

/-- The state that the variable is known in. -/
def hierarchicalSeed : State := { State.empty with data := ⟨[("y", .truth true)]⟩ }

/-- The rules of both variables. -/
def hierarchicalRules : Assoc Generator :=
  ⟨[("y", ⟨.call "dnorm" [.name "mu", .literal (.int 1) 0] none, ["mu"]⟩),
    ("mu", ⟨.call "dnorm" [.literal (.int 0) 0, .literal (.int 1) 0] none, []⟩)]⟩

theorem resolve_hierarchical : hierarchical.resolve hierarchicalSeed =
    (.ok (hierarchical, ⟨0, 0, 0, 2⟩),
      { hierarchicalSeed with stochastic := hierarchicalRules }) := by
  have hround : (Resolution.start hierarchical.statements).round hierarchicalSeed =
      (.ok (.start hierarchical.statements, 0), hierarchicalSeed) := rfl
  rw [Program.resolve, run_bind_of_ok (Resolution.run_of_round hround)]
  rfl

/-- Compiled against a value of the variable, its mean remains to be drawn. -/
theorem compile_hierarchical : ∃ c, compile hierarchical [("y", .number (.truth true))] = .ok c ∧
    c.nodes.entries.map (fun (x, n) => (x, n.kind)) =
      [("y", .observation), ("mu", .stochastic)] := by
  let s : State := { hierarchicalSeed with stochastic := hierarchicalRules }
  let nodes : Assoc Node := ⟨hierarchicalRules.entries.zipWith
    (fun (x, g) (kind, default) => (x, ⟨kind, default, g⟩))
    [(.observation, 1.0), (.stochastic, 0.0)]⟩
  exact ⟨⟨hierarchical, { s with nodes := some nodes }, nodes⟩,
    Stages.compile_eq ⟨_, _, _, _, _, _, rfl, rfl, rfl, rfl, resolve_hierarchical, rfl, rfl⟩, rfl⟩

end PlateModel
