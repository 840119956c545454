import PlateModel.Proofs.Confluence.Sources
import PlateModel.Proofs.Model.Occurrences

/-!
# What resolution makes its rules of

Unrolling puts integers in the place of loop variables, deciding takes bodies out of conditionals,
and absorbing takes definitions as they are. So every definition that resolution returns stands in
the program, and only the variables of the loops around it are replaced. Every logical rule has been
made of such a definition.

* `Resolution.Rounds.stemsFrom`: what a run leaves and absorbs stands in the program.
* `State.Makes`: a rule is what has been made of a definition.
* `made_of_resolve`: the rules that resolution returns, and the definitions that they are made of.
* `recorded_of_resolve`: a stochastic definition outside of loops and conditionals has a rule.
-/

namespace PlateModel

open Compiling Stmt

/-! ## Unrolling and deciding -/

mutual

/-- What a loop is unrolled to stands in it, with integers for its variable. -/
theorem unroll_stemsFrom {env : Mapping} : ∀ st : Stmt,
    Returns (unroll env st) fun r => ∀ st' ∈ r.1, StemsFrom [st] env st'
  | .assign .. | .sample .. | .branch .. =>
    Returns.pure (List.forall_mem_singleton.2 (stemsFrom_of_mem env (List.mem_singleton_self _)))
  | .loop i lower upper body l => by
    unfold unroll
    refine (Returns.trivial _).bind fun bounds _ => ?_
    rcases bounds with _ | ⟨a, b⟩
    · exact Returns.pure
        (List.forall_mem_singleton.2 (stemsFrom_of_mem env (List.mem_singleton_self _)))
    · -- a turn puts its integer in the place of the variable of this loop
      have hturn (k : Int) : Returns (unrollAll ((i, .ofNumber (.int k)) :: env) body)
          fun r => ∀ st' ∈ r.1, StemsFrom [.loop i lower upper body l] env st' := by
        intro s r t h st' hst'
        obtain ⟨inner, source, hsource, rfl⟩ := unrollAll_stemsFrom body s r t h st' hst'
        refine ⟨_, source, .loop (List.mem_singleton_self _) k hsource, ?_⟩
        rw [List.append_assoc, List.singleton_append]
      refine (Returns.mapM hturn _).bind fun turns hturns => Returns.pure fun st' hst' => ?_
      obtain ⟨turn, hmem, hst'⟩ := List.mem_flatMap.1 hst'
      exact hturns turn hmem st' hst'

theorem unrollAll_stemsFrom {env : Mapping} : ∀ ss : List Stmt,
    Returns (unrollAll env ss) fun r => ∀ st' ∈ r.1, StemsFrom ss env st'
  | [] => Returns.pure nofun
  | st :: rest => by
    unfold unrollAll
    refine (unroll_stemsFrom st).bind fun a ha => ?_
    refine (unrollAll_stemsFrom rest).bind fun b hb => Returns.pure fun st' hst' => ?_
    rcases List.mem_append.1 hst' with hst' | hst'
    · exact (ha st' hst').mono (List.cons_subset_cons st (List.nil_subset rest))
    · exact (hb st' hst').mono (List.subset_cons_self st rest)

end

mutual

/-- What a conditional is decided to be stands in it. -/
theorem decideIn_stemsFrom : ∀ st : Stmt,
    Returns (decideIn st) fun r => ∀ st' ∈ r.1, Occurs [st] [] st'
  | .assign .. | .sample .. | .loop .. =>
    Returns.pure (List.forall_mem_singleton.2 (.here (List.mem_singleton_self _)))
  | .branch condition body l => by
    unfold decideIn
    refine (Returns.trivial _).bind fun value _ => ?_
    rcases value with _ | _ | _
    · exact Returns.pure (List.forall_mem_singleton.2 (.here (List.mem_singleton_self _)))
    · exact Returns.pure nofun
    · refine (decideAll_stemsFrom body).bind fun r hr => Returns.pure fun st' hst' => ?_
      exact .branch (List.mem_singleton_self _) (hr st' hst')

theorem decideAll_stemsFrom : ∀ ss : List Stmt,
    Returns (decideAll ss) fun r => ∀ st' ∈ r.1, Occurs ss [] st'
  | [] => Returns.pure nofun
  | st :: rest => by
    unfold decideAll
    refine (decideIn_stemsFrom st).bind fun a ha => ?_
    refine (decideAll_stemsFrom rest).bind fun b hb => Returns.pure fun st' hst' => ?_
    rcases List.mem_append.1 hst' with hst' | hst'
    · exact (ha st' hst').mono (List.cons_subset_cons st (List.nil_subset rest))
    · exact (hb st' hst').mono (List.subset_cons_self st rest)

end

/-- What a statement is replaced by is among what a list with this statement is replaced by. -/
theorem mem_of_pass {f : Stmt → Compiling (List Stmt × Nat)}
    {g : List Stmt → Compiling (List Stmt × Nat)} {st st' : Stmt}
    (hg : ∀ st rest, g (st :: rest) = f st >>= fun a => g rest >>= fun b =>
      pure (a.1 ++ b.1, a.2 + b.2)) (hf : Returns (f st) fun r => st' ∈ r.1) :
    ∀ {ss : List Stmt}, st ∈ ss → Returns (g ss) fun r => st' ∈ r.1
  | st₀ :: rest, h => by
    rw [hg]
    rcases List.mem_cons.1 h with rfl | h
    · exact hf.bind fun a ha => (Returns.trivial _).bind fun b _ =>
        Returns.pure (List.mem_append_left _ ha)
    · exact (Returns.trivial _).bind fun a _ => (mem_of_pass hg hf h).bind fun b hb =>
        Returns.pure (List.mem_append_right _ hb)

namespace Resolution

/-! ## Steps and runs -/

variable {w w' : Resolution} {n : Nat} {s s' t : State} {ss : List Stmt}

/-- What is left and what has been absorbed stands in some statements. -/
def Stems (ss : List Stmt) (w : Resolution) : Prop :=
  ∀ st, st ∈ w.remaining ∨ st ∈ w.absorbed → StemsFrom ss [] st

theorem stems_start (ss : List Stmt) : (start ss).Stems ss := by
  rintro st (hst | hst)
  · have := stemsFrom_of_mem [] hst
    rwa [substitute_nil] at this
  · cases hst

theorem Step.stems (h : Step w s w' n s') (hw : w.Stems ss) : w'.Stems ss := by
  intro st hst
  cases h with
  | unroll h =>
    obtain ⟨ss', hss', rfl⟩ := unrollLoops_eq_ok.1 h
    rcases hst with hst | hst
    · exact (unrollAll_stemsFrom _ _ _ _ hss' st hst).trans fun st' hst' => hw st' (.inl hst')
    · exact hw st (.inr hst)
  | decide h =>
    obtain ⟨ss', hss', rfl⟩ := decideConditionals_eq_ok.1 h
    rcases hst with hst | hst
    · have hstems : StemsFrom w.remaining [] st :=
        ⟨[], st, decideAll_stemsFrom _ _ _ _ hss' st hst, (substitute_nil st).symm⟩
      exact hstems.trans fun st' hst' => hw st' (.inl hst')
    · exact hw st (.inr hst)
  | absorb h =>
    obtain ⟨u, results, -, hresults, -, rfl⟩ := absorbDefinitions_eq_ok.1 h
    have hfst := attempt_fst absorbLogical w _ _ _ hresults
    have hremaining : ∀ r ∈ results, r.1 ∈ w.remaining := fun r hr =>
      hfst ▸ List.mem_map_of_mem hr
    rcases hst with hst | hst
    · obtain ⟨r, hr, rfl⟩ := List.mem_map.1 hst
      exact hw _ (.inl (hremaining r (List.mem_filter.1 hr).1))
    · rcases List.mem_append.1 hst with hst | hst
      · exact hw st (.inr hst)
      · obtain ⟨r, hr, rfl⟩ := List.mem_map.1 hst
        exact hw _ (.inl (hremaining r (List.mem_filter.1 hr).1))

/-- What a run leaves and absorbs stands in what it starts from. -/
theorem Rounds.stems (h : Rounds w s w' s') (hw : w.Stems ss) : w'.Stems ss := by
  induction h with
  | step h _ ih => exact ih (h.stems hw)
  | last _ _ habsorb => exact (Step.absorb habsorb).stems hw

/-- A step leaves a stochastic definition as it is. -/
theorem Step.sample_mem {lhs rhs : Expr} {l : Option Location} (h : Step w s w' n s')
    (hw : .sample lhs rhs l ∈ w.remaining) : .sample lhs rhs l ∈ w'.remaining := by
  cases h with
  | unroll h =>
    obtain ⟨ss', hss', rfl⟩ := unrollLoops_eq_ok.1 h
    have hself : Returns (PlateModel.unroll [] (.sample lhs rhs l)) fun r =>
        Stmt.sample lhs rhs l ∈ r.1 := by
      refine Returns.pure ?_
      rw [substitute_nil]
      exact List.mem_singleton_self _
    exact mem_of_pass (fun _ _ => by rw [unrollAll]) hself hw _ _ _ hss'
  | decide h =>
    obtain ⟨ss', hss', rfl⟩ := decideConditionals_eq_ok.1 h
    have hself : Returns (decideIn (.sample lhs rhs l)) fun r => Stmt.sample lhs rhs l ∈ r.1 :=
      Returns.pure (List.mem_singleton_self _)
    exact mem_of_pass (fun _ _ => by rw [decideAll]) hself hw _ _ _ hss'
  | absorb h =>
    obtain ⟨u, results, hu, hresults, -, rfl⟩ := absorbDefinitions_eq_ok.1 h
    have hfst := attempt_fst absorbLogical w _ _ _ hresults
    rw [← hfst] at hw
    obtain ⟨⟨st, a⟩, hr, rfl⟩ := List.mem_map.1 hw
    obtain ⟨v, v', hst⟩ := exists_step_of_attempt hresults _ hr
    cases hst
    exact List.mem_map_of_mem (List.mem_filter.2 ⟨hr, rfl⟩)

theorem Rounds.sample_mem {lhs rhs : Expr} {l : Option Location} (h : Rounds w s w' s')
    (hw : .sample lhs rhs l ∈ w.remaining) : .sample lhs rhs l ∈ w'.remaining := by
  induction h with
  | step h _ ih => exact ih (h.sample_mem hw)
  | last _ _ habsorb => exact (Step.absorb habsorb).sample_mem hw

end Resolution

/-! ## Rules and what they are made of -/

variable {s s' t u v : State}

namespace State

/-- On the way to a state, the right-hand side of a logical definition of a symbol has been lowered
to a rule. -/
def Makes (t : State) (st : Stmt) (k : String) (rule : Expr) : Prop :=
  ∃ lhs rhs l x u v, st = .assign lhs rhs l ∧ x.name = k ∧ u.registry.WellFormed ∧
    lowered lhs rhs l u = (.ok (.ok (x, rule)), v) ∧ v.Within t

/-- The logical rules of a state have been made of some definitions. -/
def Made (t : State) (ss : List Stmt) (u : State) : Prop :=
  ∀ ⦃k rule⦄, u.logical.get? k = some rule → ∃ st ∈ ss, t.Makes st k rule

theorem Made.absorbLogical {ss : List Stmt} {st : Stmt} {a : Absorption} (hP : t.Made ss u)
    (h : absorbLogical st u = (.ok a, v)) (ha : Resolution.isLeft (st, a) = false → st ∈ ss)
    (hu : u.registry.WellFormed) (hle : v.Within t) : t.Made ss v := by
  intro k rule hk
  rcases rule_of_absorbLogical h hu hk with hk | ⟨lhs, rhs, l, x, w, rfl, hleft, hx, hlowered, hw⟩
  · exact hP hk
  · exact ⟨_, ha hleft, lhs, rhs, l, x, u, w, rfl, hx, hu, hlowered, hw.trans hle⟩

end State

open Resolution (Rounds)

/-- The logical rules that a run adds have been made of what it absorbs. -/
theorem Resolution.Rounds.made {w w' : Resolution} (h : Rounds w s w' s')
    (hs : s.registry.WellFormed) (hle : s'.Within t) (hP : t.Made w'.absorbed s) :
    t.Made w'.absorbed s' := by
  refine h.invariant (motive := fun _ s => t.Made w'.absorbed s) hs hle ?_ hP
  intro v v' n u u' hstep hu hu' hsubset hP
  refine hstep.preserves (fun _ _ hP => hP) ?_ hu hu' hP
  exact fun _ ha hu hv habsorb hP =>
    hP.absorbLogical habsorb (fun hleft => hsubset (ha hleft)) hu hv

section Resolve

variable {p q : Program} {tally : Tally}

/-- Every definition that resolution returns stands in the program, and every logical rule has been
made of such a definition. -/
theorem made_of_resolve (hs : s.Seeded) (h : p.resolve s = (.ok (q, tally), t)) :
    (∀ st ∈ q.statements, StemsFrom p.statements [] st) ∧ t.Made q.statements t := by
  obtain ⟨w, u, results, hrounds, hresults, -, hq⟩ := Program.resolve_eq_ok h
  have hsu := hrounds.grows_any hs.wellFormed
  have hut := Resolution.grows_of_attempt Resolution.absorbStochastic_grows_any hresults
    hsu.registry.wellFormed
  constructor
  · intro st hst
    have hstems := hrounds.stems (Resolution.stems_start p.statements)
    rw [hq] at hst
    rcases List.mem_append.1 hst with hst | hst
    · exact hstems st (.inr hst)
    · obtain ⟨r, hr, rfl⟩ := List.mem_map.1 hst
      refine hstems r.1 (.inl ?_)
      rw [← Resolution.attempt_fst absorbStochastic w _ _ _ hresults]
      exact List.mem_map_of_mem (List.mem_filter.1 hr).1
  · intro k rule hk
    have hnone : t.Made w.absorbed s := fun k rule hk => by rw [hs.logical] at hk; cases hk
    rw [Resolution.rules_of_attempt hresults] at hk
    obtain ⟨st, hst, hmakes⟩ := hrounds.made hs.wellFormed hut.within hnone hk
    refine ⟨st, ?_, hmakes⟩
    rw [hq]
    exact List.mem_append_left _ hst

/-- A stochastic definition outside of loops and conditionals has been recorded by itself or by one
that equals it as a tree; by itself, if it can be lowered in the end. -/
theorem recorded_of_resolve {lhs rhs : Expr} {l : Option Location} (hs : s.registry.WellFormed)
    (h : p.resolve s = (.ok (q, tally), t)) (hst : .sample lhs rhs l ∈ p.statements) :
    ∃ st ∈ q.statements, st.same (.sample lhs rhs l) ∧ AbsorbedBetween s t st ∧
      (lhs.SingleIndices → rhs.SingleIndices → t.Lowers (.sample lhs rhs l) →
        st = .sample lhs rhs l) := by
  have habsorbed := (absorbed_of_resolve hs h).2
  obtain ⟨w, u, results, hrounds, hresults, hdone, hq⟩ := Program.resolve_eq_ok h
  have hsu := hrounds.grows_any hs
  have hut := Resolution.grows_of_attempt Resolution.absorbStochastic_grows_any hresults
    hsu.registry.wellFormed
  have hmem : .sample lhs rhs l ∈ w.remaining := hrounds.sample_mem hst
  rw [← Resolution.attempt_fst absorbStochastic w _ _ _ hresults] at hmem
  obtain ⟨⟨st, a⟩, hr, rfl⟩ := List.mem_map.1 hmem
  have hbetween := Resolution.between_of_attempt Resolution.absorbStochastic_grows_any hresults
    hsu.registry.wellFormed _ hr
  cases a with
  | skipped =>
    obtain ⟨_, _, -, hskipped, -⟩ := hbetween
    rcases (absorbStochastic_sample.1 hskipped).2 with
      ⟨_, _, h⟩ | ⟨_, _, _, _, _, _, _, _, h, _⟩ <;> cases h
  | absorbed new =>
    have hst : .sample lhs rhs l ∈ q.statements := by
      rw [hq]
      exact List.mem_append_right _ (List.mem_map_of_mem (List.mem_filter.2 ⟨hr, rfl⟩))
    exact ⟨_, hst, Stmt.same_refl _, habsorbed _ hst, fun _ _ _ => rfl⟩
  | postponed why =>
    have hleft : .sample lhs rhs l ∈ (w.record results).remaining :=
      List.mem_map_of_mem (List.mem_filter.2 ⟨hr, rfl⟩)
    rcases Resolution.mem_foldl_note_of_postponed w.postponed hr with hnoted | ⟨st, hst, hsame⟩
    · -- a note that is still there at the end would be an obstacle
      have := (Resolution.checkDone_eq_ok.1 hdone).2 _ hleft _ hnoted
      rw [Stmt.same_refl] at this
      cases this
    · have hst : st ∈ q.statements := by
        rw [hq]
        exact List.mem_append_right _ hst
      refine ⟨st, hst, hsame, habsorbed st hst, fun hlhs hrhs hlowers => ?_⟩
      have hstuck := Resolution.not_lowers_of_between absorbStochastic_absorbs hbetween
        hut.registry.wellFormed (by rw [Resolution.rules_of_attempt hresults]) rfl (.refl _)
        ⟨hlhs, hrhs⟩
      exact absurd hlowers hstuck

end Resolve

end PlateModel
