import PlateModel.Proofs.Expansion.Completeness
import PlateModel.Proofs.Normal.Unlowered

/-!
# How resolution fails

A fault is internal if a form reached the compilation of expressions that nothing is compiled from.
Of the computations that resolution is made of, only the absorption of a stochastic definition
compiles anything, and it compiles the lowered right-hand side. So an internal fault of resolution
is about a form on the right-hand side of a `~` statement.

* `Fault.Concerns`: an internal fault is about a form of certain kinds.
* `lower_fails`, `resolve_fails`, …: computations without internal faults.
* `absorbStochastic_fails`, `Program.resolve_fails`: what internal faults of resolution are about.
-/

namespace PlateModel

open Compiling

/-- If a fault is internal, then it is about a form of certain kinds. -/
def Fault.Concerns (S : Unlowered → Prop) (e : Fault) : Prop := ∀ f, e = .internal f → S f.kind

section Failures

variable {S : Unlowered → Prop}

theorem concerns_model (p : Problem) (l : Option Location) : (Fault.model p l).Concerns S := nofun

theorem concerns_evaluation (why : Failure) : (Fault.evaluation why).Concerns S := by
  intro f h
  cases h

theorem orFault_fails {α : Type} (x : Except Failure α) :
    FailsOnly (Fault.Concerns S) (orFault x) := by
  cases x with
  | ok a => exact .ok a
  | error why => exact .error (concerns_evaluation why)

/-! ## The registry -/

theorem Index.check_fails (array : String) (i : Index) :
    FailsOnly (Fault.Concerns S) (i.check array) := by
  intro e h
  rcases Index.fault_of_check h with rfl | ⟨p, rfl, -⟩
  · exact concerns_evaluation _
  · exact concerns_model p none

namespace Registry

theorem allocate_fails (r : Registry) (name : String) (shape : List Nat) :
    FailsOnly (Fault.Concerns S) (r.allocate name shape) := by
  unfold allocate
  split
  · exact .ok _
  · exact .error (concerns_evaluation _)

theorem enlarge_fails (name : String) (a : SymbolArray) (shape : List Nat) :
    FailsOnly (Fault.Concerns S) (enlarge name a shape) := by
  unfold enlarge
  split
  · exact .error (concerns_evaluation _)
  · split
    · exact .error (concerns_evaluation _)
    · dsimp only
      split
      · exact .ok _
      · exact .error (concerns_evaluation _)

theorem reach_fails (r : Registry) (name : String) (is : List Index) :
    FailsOnly (Fault.Concerns S) (r.reach name is) := by
  unfold reach
  split
  · exact r.allocate_fails name _
  · split
    · exact .error (concerns_model _ _)
    · dsimp only
      split
      · exact .ok _
      · exact (enlarge_fails name _ _).map

theorem find_fails (r : Registry) (name : String) :
    FailsOnly (Fault.Concerns S) (r.find name) := by
  unfold find
  split
  · exact .ok _
  · exact .error (concerns_evaluation _)

theorem reference_fails (r : Registry) (name : String) (is : List Index) :
    FailsOnly (Fault.Concerns S) (r.reference name is) := by
  refine (FailsOnly.forM fun i _ => i.check_fails name).bind fun _ => ?_
  refine (r.reach_fails name is).bind fun r => (r.find_fails name).bind fun a => ?_
  dsimp only
  split <;> exact .ok _

end Registry

/-! ## References -/

theorem referTo_fails (array : String) (is : List Index) :
    RunFailsOnly (Fault.Concerns S) (referTo array is) := by
  intro r e h
  unfold referTo at h
  cases href : r.reference array is with
  | ok cells => rw [href] at h; cases h
  | error e' =>
    rw [href] at h
    cases h
    exact r.reference_fails array is e href

theorem arrayName_fails (base : Expr) (is : List Expr) (l : Option Location) :
    FailsOnly (Fault.Concerns S) (arrayName base is l) := by
  cases base with
  | name x => exact .ok x
  | _ => exact .error (concerns_model _ _)

namespace Definitions

variable (d : Definitions)

theorem integer_fails (written lowered : Expr) :
    FailsOnly (Fault.Concerns S) (d.integer written lowered) := by
  refine (orFault_fails _).bind fun outcome => ?_
  split
  · exact .ok _
  · split
    · exact .ok _
    · exact .error (concerns_model _ _)
  · exact .error (concerns_model _ _)
  · exact .error (concerns_model _ _)

mutual

theorem lower_fails : ∀ e : Expr, RunFailsOnly (Fault.Concerns S) (d.lower e)
  | .literal .. | .name _ | .colon _ => by
    unfold lower
    exact .pure _
  | .index base is l => by
    unfold lower
    refine (RunFailsOnly.lift (arrayName_fails base is l)).bind fun array => ?_
    exact (indices_fails is).bind fun is => (referTo_fails array is).bind fun _ => .pure _
  | .call f args l => by
    unfold lower
    exact (lowerAll_fails args).bind fun _ => .pure _
  | .range a b l => by
    unfold lower
    exact (lower_fails a).bind fun _ => (lower_fails b).bind fun _ => .pure _
  | .stepped a b s l => by
    unfold lower
    exact (lower_fails s).bind fun _ => (lower_fails a).bind fun _ => (lower_fails b).bind fun _ =>
      .pure _
  | .array xs shape l => by
    unfold lower
    exact (lowerAll_fails xs).bind fun _ => .pure _

theorem lowerAll_fails : ∀ es : List Expr, RunFailsOnly (Fault.Concerns S) (d.lowerAll es)
  | [] => by
    unfold lowerAll
    exact .pure _
  | e :: es => by
    unfold lowerAll
    exact (lower_fails e).bind fun _ => (lowerAll_fails es).bind fun _ => .pure _

theorem indices_fails : ∀ es : List Expr, RunFailsOnly (Fault.Concerns S) (d.indices es)
  | [] => by
    unfold indices
    exact .pure _
  | e :: es => by
    have hposition : RunFailsOnly (Fault.Concerns S) (do
        let i ← d.integer e (← d.lower e)
        return .position i :: (← d.indices es) : Referring (List Index)) :=
      (lower_fails e).bind fun _ => (RunFailsOnly.lift (d.integer_fails e _)).bind fun _ =>
        (indices_fails es).bind fun _ => .pure _
    unfold indices
    cases e with
    | colon => exact (indices_fails es).bind fun _ => .pure _
    | stepped => exact .throw (concerns_model _ _)
    | range a b l =>
      refine (lower_fails a).bind fun _ => ?_
      refine (RunFailsOnly.lift (d.integer_fails a _)).bind fun _ => ?_
      exact (lower_fails b).bind fun _ => (RunFailsOnly.lift (d.integer_fails b _)).bind fun _ =>
        (indices_fails es).bind fun _ => .pure _
    | _ => exact hposition

end

theorem symbolic_fails (e : Expr) : RunFailsOnly (Fault.Concerns S) (d.symbolic e) := by
  cases e with
  | name x => exact .pure _
  | index base is l =>
    refine (RunFailsOnly.lift (arrayName_fails base is l)).bind fun array => ?_
    exact (d.indices_fails is).bind fun is => (referTo_fails array is).bind fun _ => .pure _
  | _ => exact .throw (concerns_model _ _)

theorem resolve_fails (e : Expr) : RunFailsOnly (Fault.Concerns S) (d.resolve e) :=
  (d.lower_fails e).bind fun _ => .lift (orFault_fails _)

end Definitions

/-! ## On the state -/

section Compiling

variable {α : Type}

theorem refer_fails {f : Definitions → Referring α}
    (hf : ∀ d, RunFailsOnly (Fault.Concerns S) (f d)) :
    RunFailsOnly (Fault.Concerns S) (refer f) := fun s => hf s.toDefinitions s.registry

theorem unlessUnresolved_fails {m : Compiling α} (hm : RunFailsOnly (Fault.Concerns S) m) :
    RunFailsOnly (Fault.Concerns S) (unlessUnresolved m) := by
  intro s e h
  unfold unlessUnresolved at h
  rcases hs : m s with ⟨e' | a, t⟩
  · rw [hs] at h
    dsimp only at h
    split at h
    · cases h
    · cases h
      exact hm s e (by rw [hs])
  · rw [hs] at h
    cases h

end Compiling

/-! ## Loops and conditionals -/

theorem integerBounds_fails (a b : Number) (l : Option Location) :
    FailsOnly (Fault.Concerns S) (integerBounds a b l) := by
  have hinteger (n : Number) :
      FailsOnly (Fault.Concerns S) (integerBound (fractionalFault a b l) n) := by
    unfold integerBound
    split
    · exact .error (concerns_evaluation _)
    · split
      · exact .ok _
      · exact .ok _
      · unfold fractionalFault
        split
        · exact .error (concerns_model _ _)
        · exact .error (concerns_evaluation _)
  rw [integerBounds_eq]
  exact (hinteger a).bind fun _ => (hinteger b).bind fun _ => .ok _

theorem loopBounds_fails (lower upper : Expr) (l : Option Location) :
    RunFailsOnly (Fault.Concerns S) (loopBounds lower upper l) := by
  have hbounds (d : Definitions) : RunFailsOnly (Fault.Concerns S) (do
      let a ← d.resolve lower
      return (a, ← d.resolve upper) : Referring (Outcome × Outcome)) :=
    (d.resolve_fails lower).bind fun _ => (d.resolve_fails upper).bind fun _ => .pure _
  refine (unlessUnresolved_fails (refer_fails hbounds)).bind fun outcomes => ?_
  split
  · exact .pure _
  · split
    · exact (RunFailsOnly.lift (integerBounds_fails _ _ l)).bind fun _ => .pure _
    · exact .pure _

theorem guardValue_fails (condition : Expr) (l : Option Location) :
    RunFailsOnly (Fault.Concerns S) (guardValue condition l) := by
  refine (unlessUnresolved_fails (refer_fails fun d => d.resolve_fails condition)).bind
    fun outcome => ?_
  split
  · exact .pure _
  · split
    · exact .pure _
    · exact .pure _
    · split
      · exact .throw (concerns_model _ _)
      · exact .throw (concerns_evaluation _)

mutual

theorem unroll_fails (env : Mapping) : ∀ st : Stmt, RunFailsOnly (Fault.Concerns S) (unroll env st)
  | .assign .. | .sample .. | .branch .. => by
    unfold unroll
    exact .pure _
  | .loop i lower upper body l => by
    unfold unroll
    refine (loopBounds_fails _ _ l).bind fun bounds => ?_
    split
    · exact .pure _
    · exact (RunFailsOnly.mapM fun k _ => unrollAll_fails _ body).bind fun _ => .pure _

theorem unrollAll_fails (env : Mapping) : ∀ ss : List Stmt,
    RunFailsOnly (Fault.Concerns S) (unrollAll env ss)
  | [] => by
    unfold unrollAll
    exact .pure _
  | st :: ss => by
    unfold unrollAll
    exact (unroll_fails env st).bind fun _ => (unrollAll_fails env ss).bind fun _ => .pure _

end

mutual

theorem decideIn_fails : ∀ st : Stmt, RunFailsOnly (Fault.Concerns S) (decideIn st)
  | .assign .. | .sample .. | .loop .. => by
    unfold decideIn
    exact .pure _
  | .branch condition body l => by
    unfold decideIn
    refine (guardValue_fails condition l).bind fun value => ?_
    split
    · exact .pure _
    · exact .pure _
    · exact (decideAll_fails body).bind fun _ => .pure _

theorem decideAll_fails : ∀ ss : List Stmt, RunFailsOnly (Fault.Concerns S) (decideAll ss)
  | [] => by
    unfold decideAll
    exact .pure _
  | st :: ss => by
    unfold decideAll
    exact (decideIn_fails st).bind fun _ => (decideAll_fails ss).bind fun _ => .pure _

end

/-! ## Definitions -/

theorem target_fails (lhs : Expr) (l : Option Location) :
    RunFailsOnly (Fault.Concerns S) (target lhs l) := by
  by_cases h : IsTarget lhs
  · intro s
    rw [target_of_isTarget h]
    refine (refer_fails fun d => d.symbolic_fails lhs).bind (fun y => ?_) s
    rcases y with x | c | ⟨shape, cells⟩
    · intro u
      rw [singleTarget_inl]
      split
      · exact .error (concerns_model _ _)
      · exact .ok _
    · exact .pure _
    · exact .throw (concerns_model _ _)
  · cases lhs with
    | name | index => exact absurd trivial h
    | _ => exact .throw (concerns_model _ _)

theorem lowered_fails (lhs rhs : Expr) (l : Option Location) :
    RunFailsOnly (Fault.Concerns S) (lowered lhs rhs l) :=
  unlessUnresolved_fails <| (target_fails lhs l).bind fun _ =>
    (refer_fails fun d => d.lower_fails rhs).bind fun _ => .pure _

theorem addLogical_fails (s : State) (x : Symbol) (rhs : Expr) (l : Option Location) :
    FailsOnly (Fault.Concerns S) (s.addLogical x rhs l) := by
  rw [State.addLogical_eq]
  split
  · exact .error (concerns_model _ _)
  · split
    · split
      · exact .ok _
      · exact .error (concerns_model _ _)
    · split
      · split
        · exact .ok _
        · exact .error (concerns_model _ _)
      · exact .ok _

theorem addStochastic_fails (s : State) (x : Symbol) (g : Generator) (l : Option Location) :
    FailsOnly (Fault.Concerns S) (s.addStochastic x g l) := by
  rw [State.addStochastic_eq]
  split
  · exact .error (concerns_model _ _)
  · split
    · split
      · exact .ok _
      · exact .error (concerns_model _ _)
    · exact .ok _

theorem absorb_fails (o : Option State) : RunFailsOnly (Fault.Concerns S) (absorb o) := by
  cases o with
  | none => exact .pure _
  | some s => exact (RunFailsOnly.set s).bind fun _ => .pure _

theorem absorbLogical_fails (st : Stmt) : RunFailsOnly (Fault.Concerns S) (absorbLogical st) := by
  cases st with
  | assign lhs rhs l =>
    refine (lowered_fails lhs rhs l).bind fun result => ?_
    rcases result with why | ⟨x, e⟩
    · exact .pure _
    · exact RunFailsOnly.get.bind fun s => (RunFailsOnly.lift (addLogical_fails s x e l)).bind
        absorb_fails
  | _ => exact .pure _

theorem registerTarget_fails (st : Stmt) : RunFailsOnly (Fault.Concerns S) (registerTarget st) := by
  unfold registerTarget
  split
  · exact (unlessUnresolved_fails (refer_fails fun d => d.symbolic_fails _)).bind fun _ => .pure _
  · exact (unlessUnresolved_fails (refer_fails fun d => d.symbolic_fails _)).bind fun _ => .pure _
  · exact .pure _

theorem checkDistribution_fails (rhs : Expr) (l : Option Location) :
    FailsOnly (Fault.Concerns S) (checkDistribution rhs l) := by
  unfold checkDistribution
  split
  · split
    · exact .error (concerns_model _ _)
    · split
      · exact .ok _
      · exact .error (concerns_model _ _)
  · exact .error (concerns_model _ _)

/-- A generator is made by compiling an expression. -/
theorem ofExpr_fails {e : Expr} (he : e.Only S) :
    FailsOnly (Fault.Concerns S) (Generator.ofExpr e) := by
  refine FailsOnly.map fun why h f hf => ?_
  subst hf
  exact he _ (Expr.kind_of_checkEvaluable h)

/-- A lowered right-hand side has no references any more. -/
theorem only_of_lowered {lhs rhs e : Expr} {l : Option Location} {x : Symbol} {s t : State}
    (h : lowered lhs rhs l s = (.ok (.ok (x, e)), t))
    (hrhs : rhs.Only fun k => k = .reference ∨ S k) : e.Only S := by
  obtain ⟨y, r, r', -, -, -, he, -⟩ := lowered_eq_ok.1 h
  intro k hk
  rw [Expr.unlowered_of_lower he] at hk
  obtain ⟨hk, hne⟩ := List.mem_filter.1 hk
  exact (hrhs k hk).resolve_left (by simpa using hne)

/-- The right-hand side of a stochastic definition is compiled when it is absorbed. -/
theorem absorbStochastic_fails {st : Stmt}
    (hst : st.Every (fun _ => True) (Expr.Only fun k => k = .reference ∨ S k)) :
    RunFailsOnly (Fault.Concerns S) (absorbStochastic st) := by
  cases st with
  | sample lhs rhs l =>
    refine (RunFailsOnly.lift (checkDistribution_fails rhs l)).bind fun _ s => ?_
    refine (lowered_fails lhs rhs l s).run_bind fun result t h => ?_
    rcases result with why | ⟨x, e⟩
    · exact .ok _
    · have hmade : RunFailsOnly (Fault.Concerns S)
          (liftM (Generator.ofExpr e) : Compiling Generator) :=
        .lift (ofExpr_fails (only_of_lowered h hst.2))
      refine hmade.bind (fun g => RunFailsOnly.get.bind fun s => ?_) t
      exact (RunFailsOnly.lift (addStochastic_fails s x g l)).bind absorb_fails
  | _ => exact .pure _

/-- Only an index that does not come to an integer yet lets a definition be postponed. -/
theorem concerns_of_absorbs {st : Stmt} {s t : State} {why : Fault}
    (h : Absorbs st s (.postponed why) t) : why.Concerns S := by
  cases h with
  | postponed _ h =>
    intro f hf
    subst hf
    unfold lowered unlessUnresolved at h
    split at h
    · cases h
    · split at h
      · next hunresolved =>
        cases h
        cases hunresolved
      · cases h

/-! ## Rounds -/

namespace Resolution

theorem attempt_fails {f : Stmt → Compiling Absorption} {w : Resolution}
    (hf : ∀ st ∈ w.remaining, RunFailsOnly (Fault.Concerns S) (f st)) :
    RunFailsOnly (Fault.Concerns S) (w.attempt f) := (RunFailsOnly.mapM hf).bind fun _ => .pure _

theorem unrollLoops_fails (w : Resolution) : RunFailsOnly (Fault.Concerns S) w.unrollLoops :=
  (unrollAll_fails [] w.remaining).bind fun _ => .pure _

theorem decideConditionals_fails (w : Resolution) :
    RunFailsOnly (Fault.Concerns S) w.decideConditionals :=
  (decideAll_fails w.remaining).bind fun _ => .pure _

theorem absorbDefinitions_fails (w : Resolution) :
    RunFailsOnly (Fault.Concerns S) w.absorbDefinitions :=
  (RunFailsOnly.forM fun st _ => registerTarget_fails st).bind fun _ =>
    (attempt_fails fun st _ => absorbLogical_fails st).bind fun _ => .pure _

theorem round_fails (w : Resolution) : RunFailsOnly (Fault.Concerns S) w.round := by
  refine w.unrollLoops_fails.bind fun unrolled => ?_
  dsimp only
  split
  · exact .pure _
  · refine w.decideConditionals_fails.bind fun decided => ?_
    split
    · exact .pure _
    · exact w.absorbDefinitions_fails

/-- A run is a round and, unless this changes nothing, another run. -/
theorem run_fails (w : Resolution) : RunFailsOnly (Fault.Concerns S) w.run := by
  intro s
  rcases hround : w.round s with ⟨e | ⟨next, n⟩, u⟩
  · rw [run_of_round_error hround]
    exact .error (w.round_fails s e (by rw [hround]))
  · rw [run_of_round hround]
    have descends := w.round_progresses s (next, n) u hround
    by_cases hn : n = 0
    · rw [if_pos hn]
      exact .ok next
    · rw [if_neg hn]
      exact run_fails next u
termination_by WellFounded.wrap Below.wf (Stmt.heights w.remaining)
decreasing_by exact descends hn

theorem concerns_of_note {r : Stmt × Absorption} (hr : ∀ why, r.2 = .postponed why → why.Concerns S)
    {noted : List (Stmt × Fault)} (hnoted : ∀ x ∈ noted, x.2.Concerns S) :
    ∀ x ∈ note noted r, x.2.Concerns S := by
  rcases r with ⟨st, _ | why | new⟩
  · exact hnoted
  · exact List.forall_mem_cons.2 ⟨hr why rfl, hnoted⟩
  · exact fun x hx => hnoted x (List.mem_filter.1 hx).1

theorem concerns_of_notes : ∀ {results : List (Stmt × Absorption)},
    (∀ r ∈ results, ∀ why, r.2 = .postponed why → why.Concerns S) →
    ∀ {noted : List (Stmt × Fault)}, (∀ x ∈ noted, x.2.Concerns S) →
      ∀ x ∈ results.foldl note noted, x.2.Concerns S
  | [], _, _, hnoted => hnoted
  | r :: _, hresults, _, hnoted =>
    concerns_of_notes (fun r' hr' => hresults r' (List.mem_cons_of_mem r hr'))
      (concerns_of_note (hresults r (List.mem_cons_self ..)) hnoted)

/-- What an attempt postpones is postponed for want of an index. -/
theorem concerns_of_attempt {f : Stmt → Compiling Absorption}
    (hf : ∀ {st s a t}, f st s = (.ok a, t) → Absorbs st s a t) {w : Resolution} {s t : State}
    {results : List (Stmt × Absorption)} (h : w.attempt f s = (.ok results, t)) :
    ∀ r ∈ results, ∀ why, r.2 = .postponed why → why.Concerns S := by
  rintro ⟨st, a⟩ hr why rfl
  obtain ⟨u, v, hstep⟩ := exists_step_of_attempt h _ hr
  exact concerns_of_absorbs (hf hstep)

/-- In the last round everything that is left is tried again. -/
theorem Rounds.concerns {w w' : Resolution} {s s' : State} (h : Rounds w s w' s') :
    ∀ x ∈ w'.postponed, x.2.Concerns S := by
  induction h with
  | step _ _ ih => exact ih
  | last _ _ habsorb =>
    obtain ⟨u, results, -, hresults, -, rfl⟩ := absorbDefinitions_eq_ok.1 habsorb
    exact concerns_of_notes (concerns_of_attempt absorbLogical_absorbs hresults)
      (List.forall_mem_nil _)

theorem checkDone_fails {w : Resolution} (hw : ∀ x ∈ w.postponed, x.2.Concerns S) :
    FailsOnly (Fault.Concerns S) w.checkDone := by
  unfold checkDone
  split
  · exact .error (concerns_model _ _)
  · split
    · next why hwhy =>
      obtain ⟨st, -, hst⟩ := List.exists_of_findSome?_eq_some hwhy
      obtain ⟨x, hx, rfl⟩ := Option.map_eq_some_iff.1 hst
      exact .error (hw x (List.mem_of_find?_eq_some hx))
    · exact .ok ()

end Resolution

/-- An internal fault of resolution is about a form on the right-hand side of a `~` statement. -/
theorem Program.resolve_fails {p : Program}
    (hp : Stmt.OnlyAll (fun k => k = .reference ∨ S k) p.statements) :
    RunFailsOnly (Fault.Concerns S) p.resolve := by
  intro s
  refine (Resolution.run_fails _ s).run_bind fun w u hrun => ?_
  have hrounds := Resolution.rounds_of_run hrun
  have hleft := Stmt.everyOfAll_iff.1
    (hrounds.every (fun _ _ _ _ => trivial) (Expr.stable_only _) hp)
  have hattempt := Resolution.attempt_fails fun st hst => absorbStochastic_fails (hleft st hst)
  refine (hattempt u).run_bind fun results t hresults => ?_
  have hnotes : ∀ x ∈ (w.record results).postponed, x.2.Concerns S := Resolution.concerns_of_notes
    (Resolution.concerns_of_attempt absorbStochastic_absorbs hresults) hrounds.concerns
  exact ((RunFailsOnly.lift (Resolution.checkDone_fails hnotes)).bind fun _ => .pure _) t

end Failures

end PlateModel
