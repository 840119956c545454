import PlateModel.Proofs.Compile.Invariant
import PlateModel.Proofs.Expansion.Again
import PlateModel.Proofs.Normal.SingleCells

/-!
# Resolving a compiled program once more

A compiled program without slices can be resolved again in the final state of its compilation. This
changes nothing. It fails if and only if the state refuses one of the definitions, with the refusal
of the first one: a name that was given a value has become that of an array, or a value that the
data confirm is also drawn from a distribution.

* `resolve_compiled`: what the second resolution comes to.
* `resolve_compiled_refused`: a program on which it fails.
-/

namespace PlateModel

open Compiling

variable {p : Program} {data : List (String × Datum)} {c : Compiled}

/-- The definitions of a compiled program without slices are resolved to themselves in the final
state of the compilation, and nothing is unrolled, decided or added for that, unless the state
refuses one of them. It stays as it is. -/
theorem resolve_compiled (hp : p.NoSlices) (h : compile p data = .ok c) :
    c.program.resolve c.state =
      ((c.program.statements.findSome? c.state.refusal).elim (.ok (c.program, ⟨0, 0, 0, 0⟩)) .error,
        c.state) := by
  obtain ⟨stages⟩ := compile_stages h
  have hsingle := Program.singleCells_of_expandSpecial stages.expandSpecial
    (Program.singleCells_of_unlink stages.unlink
      (Program.singleCells_of_validate stages.validate hp))
  have hseeded := (State.seeded_of_seed stages.seed).wellFormed
  have hresolved := (absorbed_of_resolve hseeded stages.resolve).1
  refine Program.resolve_again hseeded hsingle stages.resolve ?_ (consistent_of_compile h) ?_
  · rw [stages.state]
    exact hresolved.registry.wellFormed
  · rw [stages.state]
    exact ⟨.refl _, .refl _, fun _ _ hx => hx⟩

theorem resolve_compiled_hierarchical : hierarchical.NoSlices ∧
    ∃ c, compile hierarchical [("y", .number (.truth true))] = .ok c ∧
      c.program.resolve c.state = ((c.program.statements.findSome? c.state.refusal).elim
        (.ok (c.program, ⟨0, 0, 0, 0⟩)) .error, c.state) := by
  have hslices : hierarchical.NoSlices := by decide
  obtain ⟨c, hc, -⟩ := compile_hierarchical
  exact ⟨hslices, c, hc, resolve_compiled hslices hc⟩

/-- Gives a value to a name, and then refers to an array of that name. -/
def clashing : Program :=
  ⟨[.assign (.name "x") (.literal (.int 1) 0) none,
    .assign (.name "y") (.index (.name "x") [.literal (.int 1) 0] none) none], none⟩

/-- What `clashing` comes to: the array is there, and so is the value. -/
def clashingState : State :=
  { State.empty with
    registry := ⟨⟨[("x", ⟨[1], [⟨"x", [1]⟩], 0⟩)]⟩⟩
    logical := ⟨[("x", .literal (.int 1) 0), ("y", .name "x[1]")]⟩ }

theorem resolve_clashing :
    clashing.resolve .empty = (.ok (clashing, ⟨0, 0, 2, 0⟩), clashingState) :=
  Program.resolve_of_absorbed (n := 2) rfl

theorem compile_clashing : ∃ nodes, compile clashing [] =
    .ok ⟨clashing, { clashingState with nodes := some nodes }, nodes⟩ := by
  obtain ⟨nodes, hnodes⟩ : ∃ nodes, clashingState.emit = .ok nodes := ⟨_, rfl⟩
  exact ⟨nodes, Stages.compile_eq
    ⟨_, _, _, _, _, _, rfl, rfl, rfl, rfl, resolve_clashing, hnodes, rfl⟩⟩

/-- The second resolution refuses the name that the first one took, since the array of that name
has come into being between the two. -/
theorem resolve_compiled_refused :
    ¬ ∀ (p : Program) (data : List (String × Datum)) (c : Compiled), p.NoSlices →
      compile p data = .ok c → ∃ q t, c.program.resolve c.state = (.ok (q, ⟨0, 0, 0, 0⟩), t) ∧
        t.logical = c.state.logical ∧ t.stochastic = c.state.stochastic := by
  intro claim
  obtain ⟨nodes, hcompile⟩ := compile_clashing
  obtain ⟨q, t, hresolve, -⟩ := claim clashing [] _ (by decide) hcompile
  have hround : (Resolution.start clashing.statements).round
      { clashingState with nodes := some nodes } =
      (.error (.model (.targetSlice (.name "x")) none),
        { clashingState with nodes := some nodes }) := rfl
  rw [Program.resolve, run_bind_of_error (Resolution.run_of_round_error hround)] at hresolve
  cases hresolve

end PlateModel
