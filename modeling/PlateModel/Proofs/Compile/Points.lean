import PlateModel.Compile.Compile
import PlateModel.Proofs.Expansion.Rounds
import PlateModel.Proofs.State.Edits

/-!
# The points of a compilation

A compilation, whether it returns or fails, takes the empty state to its final one by edits: it
binds data, refers to arrays, adds rules and stores nodes.

* `compiling`: a compilation as one computation on the state; `compile_eq_ok`: when it returns.
* `Compiling.MakesEdits`: a computation does nothing to the state but edit it.
* `compiling_edits`: a compilation does nothing to the empty state but edit it.
-/

namespace PlateModel

open Compiling

/-! ## Computations that edit -/

namespace Compiling

variable {α β : Type}

/-- The order in which computations take the state that edit it. -/
def EditOrder (s t : State) : Prop := s.registry.WellFormed → t.registry.WellFormed ∧ s.Edits t

/-- A computation, whether it returns or fails, does nothing to the state but edit it. -/
def MakesEdits (m : Compiling α) : Prop := Advances EditOrder m

theorem EditOrder.refl (s : State) : EditOrder s s := fun hs => ⟨hs, .refl⟩

theorem EditOrder.trans {s t u : State} (h : EditOrder s t) (k : EditOrder t u) : EditOrder s u :=
  fun hs => ⟨(k (h hs).1).1, (h hs).2.trans (k (h hs).1).2⟩

theorem MakesEdits.pure (a : α) : MakesEdits (Pure.pure a : Compiling α) :=
  Advances.pure EditOrder.refl a

theorem MakesEdits.lift (x : Except Fault α) : MakesEdits (liftM x : Compiling α) :=
  Advances.lift EditOrder.refl x

theorem MakesEdits.bind {m : Compiling α} {f : α → Compiling β} (hm : MakesEdits m)
    (hf : ∀ a, MakesEdits (f a)) : MakesEdits (m >>= f) := Advances.bind EditOrder.trans hm hf

theorem MakesEdits.mapM {f : α → Compiling β} {xs : List α} (hf : ∀ a ∈ xs, MakesEdits (f a)) :
    MakesEdits (xs.mapM f) := Advances.mapM EditOrder.refl EditOrder.trans hf

/-- To refer to arrays is one edit. -/
theorem Refers.makesEdits {K : String → Prop} {m : Compiling α} (hm : Refers K m) :
    MakesEdits m := by
  intro s x t h hs
  obtain ⟨hr, ht⟩ := hm.of_eq h hs
  exact ⟨hr.wellFormed, ht ▸ .single (.registry t.registry)⟩

theorem MakesEdits.edits {m : Compiling α} (hm : MakesEdits m) {s t : State} {x : Except Fault α}
    (h : m s = (x, t)) (hs : s.registry.WellFormed) : s.Edits t := (hm s x t h hs).2

end Compiling

/-! ## Absorbing -/

/-- Adding a rule is an edit, or nothing. -/
theorem addRule_makesEdits {f : State → Except Fault (Option State)}
    (hf : ∀ {u v}, f u = .ok (some v) → u.Edit v ∧ v.registry = u.registry) :
    MakesEdits (get >>= fun s => liftM (f s) >>= absorb) := by
  intro s x t h hs
  rw [run_bind_of_ok (run_get s), run_bind, run_lift] at h
  cases ho : f s with
  | error e =>
    rw [ho] at h
    cases h
    exact EditOrder.refl s hs
  | ok o =>
    rw [ho] at h
    cases o with
    | none =>
      cases h
      exact EditOrder.refl s hs
    | some v =>
      cases h
      obtain ⟨hedit, hregistry⟩ := hf ho
      exact ⟨hregistry ▸ hs, .single hedit⟩

theorem State.registry_of_addLogical {s t : State} {x : Symbol} {rhs : Expr} {l : Option Location}
    (h : s.addLogical x rhs l = .ok (some t)) : t.registry = s.registry := by
  rcases addLogical_eq_ok.1 h with ⟨-, ⟨_, _, _, h⟩ | ⟨_, _, _, _, h⟩ | ⟨-, -, h⟩⟩ <;> cases h
  rfl

theorem State.registry_of_addStochastic {s t : State} {x : Symbol} {g : Generator}
    {l : Option Location} (h : s.addStochastic x g l = .ok (some t)) :
    t.registry = s.registry := by
  rcases addStochastic_eq_ok.1 h with ⟨-, ⟨_, _, _, h⟩ | ⟨-, h⟩⟩ <;> cases h
  rfl

theorem lowered_makesEdits (lhs rhs : Expr) (l : Option Location) :
    MakesEdits (lowered lhs rhs l) :=
  (lowered_refers (K := fun _ => True) Definitions.grows_any Definitions.grows_any l).makesEdits

theorem absorbLogical_makesEdits (st : Stmt) : MakesEdits (absorbLogical st) := by
  cases st with
  | assign lhs rhs l =>
    refine (lowered_makesEdits lhs rhs l).bind fun result => ?_
    rcases result with why | ⟨x, e⟩
    · exact .pure _
    · exact addRule_makesEdits fun h => ⟨.logical h, State.registry_of_addLogical h⟩
  | _ => exact .pure _

theorem absorbStochastic_makesEdits (st : Stmt) : MakesEdits (absorbStochastic st) := by
  cases st with
  | sample lhs rhs l =>
    refine (MakesEdits.lift _).bind fun _ => (lowered_makesEdits lhs rhs l).bind fun result => ?_
    rcases result with why | ⟨x, e⟩
    · exact .pure _
    · -- that the rule is compiled is known only where the compilation of it has returned
      dsimp only
      cases hg : Generator.ofExpr e with
      | error f =>
        exact (MakesEdits.lift _ : MakesEdits (liftM (.error f : Except Fault Absorption)))
      | ok g =>
        exact addRule_makesEdits fun h => ⟨.stochastic hg h, State.registry_of_addStochastic h⟩
  | _ => exact .pure _

/-! ## Resolution -/

namespace Resolution

theorem attempt_makesEdits {f : Stmt → Compiling Absorption} (hf : ∀ st, MakesEdits (f st))
    (w : Resolution) : MakesEdits (w.attempt f) :=
  (MakesEdits.mapM fun st _ => hf st).bind fun _ => .pure _

theorem unrollLoops_makesEdits (w : Resolution) : MakesEdits w.unrollLoops :=
  (unrollAll_refers Mapping.literal_nil (Stmt.refersInAll_any w.remaining)).makesEdits.bind
    fun _ => .pure _

theorem decideConditionals_makesEdits (w : Resolution) : MakesEdits w.decideConditionals :=
  (decideAll_refers (Stmt.refersInAll_any w.remaining)).makesEdits.bind fun _ => .pure _

theorem absorbDefinitions_makesEdits (w : Resolution) : MakesEdits w.absorbDefinitions :=
  (absorbDefinitions_refers (Stmt.refersInAll_any w.remaining)).makesEdits.bind fun _ =>
    (w.attempt_makesEdits absorbLogical_makesEdits).bind fun _ => .pure _

theorem round_makesEdits (w : Resolution) : MakesEdits w.round := by
  refine w.unrollLoops_makesEdits.bind fun unrolled => ?_
  dsimp only
  split
  · exact .pure _
  · refine w.decideConditionals_makesEdits.bind fun decided => ?_
    split
    · exact .pure _
    · exact w.absorbDefinitions_makesEdits

/-- A run is a round and, unless this changes nothing, another run. -/
theorem run_makesEdits (w : Resolution) : MakesEdits w.run := by
  intro s x t h
  rcases hround : w.round s with ⟨e | ⟨next, n⟩, u⟩
  · rw [run_of_round_error hround] at h
    cases h
    exact w.round_makesEdits _ _ _ hround
  · rw [run_of_round hround] at h
    have hfirst := w.round_makesEdits _ _ _ hround
    have descends := w.round_progresses s (next, n) u hround
    by_cases hn : n = 0
    · rw [if_pos hn] at h
      cases h
      exact hfirst
    · rw [if_neg hn] at h
      exact hfirst.trans (run_makesEdits next _ _ _ h)
termination_by WellFounded.wrap Below.wf (Stmt.heights w.remaining)
decreasing_by exact descends hn

end Resolution

theorem Program.resolve_makesEdits (p : Program) : MakesEdits p.resolve :=
  (Resolution.run_makesEdits _).bind fun w =>
    (w.attempt_makesEdits absorbStochastic_makesEdits).bind fun _ =>
      (MakesEdits.lift _).bind fun _ => .pure _

/-! ## Passes -/

/-- Emission stores the nodes of the state, or fails. -/
theorem Pass.run_emission (p : Program) (s : State) : emission.run p s = match s.emit with
    | .ok nodes => (.ok p, { s with nodes := some nodes })
    | .error e => (.error e, s) := by
  rw [run, run_bind_of_ok (run_get s), run_bind, run_lift]
  cases s.emit <;> rfl

theorem Pass.run_makesEdits (pass : Pass) (p : Program) : MakesEdits (pass.run p) := by
  cases pass with
  | validation | links | special => exact .lift _
  | resolution => exact p.resolve_makesEdits.bind fun _ => .pure _
  | emission =>
    intro s x t h hs
    rw [run_emission] at h
    cases hnodes : s.emit with
    | ok nodes =>
      rw [hnodes] at h
      cases h
      exact ⟨hs, .single (.nodes nodes)⟩
    | error e =>
      rw [hnodes] at h
      cases h
      exact EditOrder.refl s hs

/-- The passes of a compilation as one computation on the state. -/
def passing : List Pass → Program → Compiling Program
  | [], p => return p
  | pass :: rest, p => do passing rest (← pass.run p)

theorem passing_makesEdits : ∀ (passes : List Pass) (p : Program), MakesEdits (passing passes p)
  | [], p => .pure p
  | pass :: rest, p => (pass.run_makesEdits p).bind fun q => passing_makesEdits rest q

/-! ## Seeding -/

namespace State

variable {s t : State}

theorem edits_bindCells (hlogical : s.logical = .empty) (hstochastic : s.stochastic = .empty) :
    ∀ (cells : List (Cell × Option Number)) (data : Assoc Number),
      Edits { s with data } { s with data := bindCells data cells }
  | [], _ => .refl
  | (_, none) :: rest, data => edits_bindCells hlogical hstochastic rest data
  | (c, some v) :: rest, data =>
    .head (.datum c.name v hlogical hstochastic)
      (edits_bindCells hlogical hstochastic rest (data.put c.name v))

/-- Binding a name makes room for an array and binds its cells one after the other. -/
theorem edits_bind (hs : s.Seeded) {name : String} {d : Datum} (h : s.bind name d = .ok t) :
    s.Edits t := by
  unfold State.bind at h
  split at h
  · obtain ⟨values, -, h⟩ := bind_eq_ok.1 h
    obtain ⟨registry, -, h⟩ := bind_eq_ok.1 h
    cases h
    refine .head (.registry registry) ?_
    exact edits_bindCells (s := { s with registry }) hs.logical hs.stochastic _ s.data
  · cases h
    split
    · exact .refl
    · exact .single (.datum _ _ hs.logical hs.stochastic)
  · cases h
    exact .refl
  · cases h

/-- Seeding edits the state, also when it fails, and adds no rules. -/
theorem edits_seed : ∀ {data : List (String × Datum)} {s t : State} {x : Except Fault Unit},
    s.Seeded → State.seed data s = (x, t) → s.Edits t ∧ t.Seeded
  | [], _, _, _, hs, h => by
    cases h
    exact ⟨.refl, hs⟩
  | (name, d) :: data, s, _, _, hs, h => by
    rw [seed, run_bind_of_ok (run_get s), run_bind, run_lift] at h
    cases hu : s.bind name d with
    | error e =>
      rw [hu] at h
      cases h
      exact ⟨.refl, hs⟩
    | ok u =>
      simp only [hu, run_bind_of_ok (run_set s u)] at h
      obtain ⟨hedits, ht⟩ := edits_seed (hs.bind hu) h
      exact ⟨(edits_bind hs hu).trans hedits, ht⟩

end State

/-! ## Compilation -/

/-- A compilation as one computation on the state. -/
def compiling (p : Program) (data : List (String × Datum)) : Compiling Program := do
  State.seed data
  passing (← Pass.order) p

theorem runPasses_eq (passes : List Pass) (s : State) (p : Program) :
    (runPasses s p passes).1 = match passing passes p s with
      | (.ok q, t) => .ok (q, t)
      | (.error e, _) => .error e := by
  induction passes generalizing s p with
  | nil => rfl
  | cons pass rest ih =>
    rw [runPasses, passing, run_bind]
    rcases pass.run p s with ⟨e | q, t⟩
    · rfl
    · exact ih t q

theorem State.emitted_eq_ok {s : State} {nodes : Assoc Node} :
    s.emitted = .ok nodes ↔ s.nodes = some nodes := by
  unfold emitted
  cases s.nodes with
  | none => exact ⟨nofun, nofun⟩
  | some _ => exact ⟨fun h => by cases h; rfl, fun h => by cases h; rfl⟩

/-- A compilation fails where it fails as a computation, and gives what it has emitted otherwise. -/
theorem compile_eq (p : Program) (data : List (String × Datum)) :
    compile p data = match compiling p data .empty with
      | (.error e, _) => .error e
      | (.ok q, t) => t.emitted >>= fun nodes => .ok ⟨q, t, nodes⟩ := by
  rw [compile, compileTraced, compiling, run_bind]
  rcases State.seed data .empty with ⟨e | ⟨⟩, s⟩
  · rfl
  dsimp only
  rw [run_bind, run_lift]
  cases Pass.order with
  | error e => rfl
  | ok passes =>
    dsimp only
    rw [runPasses_eq]
    rcases passing passes p s with ⟨e | q, t⟩
    · rfl
    · rfl

/-- A compilation returns when it comes to its end as a computation, and has emitted nodes. -/
theorem compile_eq_ok {p : Program} {data : List (String × Datum)} {c : Compiled} :
    compile p data = .ok c ↔
      compiling p data .empty = (.ok c.program, c.state) ∧ c.state.nodes = some c.nodes := by
  rw [compile_eq]
  rcases compiling p data .empty with ⟨e | q, t⟩
  · exact ⟨nofun, fun h => nomatch h.1⟩
  · dsimp only
    rw [bind_eq_ok]
    constructor
    · rintro ⟨nodes, hnodes, h⟩
      cases h
      exact ⟨rfl, State.emitted_eq_ok.1 hnodes⟩
    · rintro ⟨h, hnodes⟩
      obtain ⟨program, state, nodes⟩ := c
      cases h
      exact ⟨nodes, State.emitted_eq_ok.2 hnodes, rfl⟩

/-- A compilation, whether it returns or fails, takes the empty state to its final one by edits. -/
theorem compiling_edits (p : Program) (data : List (String × Datum)) :
    State.Edits .empty (compiling p data .empty).2 := by
  rcases hseed : State.seed data .empty with ⟨x, s⟩
  obtain ⟨hedits, hs⟩ := State.edits_seed State.seeded_empty hseed
  have hpasses : MakesEdits (liftM Pass.order >>= fun passes => passing passes p) :=
    (MakesEdits.lift _).bind fun passes => passing_makesEdits passes p
  rw [compiling, run_bind, hseed]
  cases x with
  | error e => exact hedits
  | ok => exact hedits.trans (hpasses.edits rfl hs.wellFormed)

end PlateModel
