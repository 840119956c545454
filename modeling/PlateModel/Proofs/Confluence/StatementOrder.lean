import PlateModel.Proofs.Confluence.Exhaustion

/-!
# The order of statements does not matter

A program whose statements are those of another one in another order resolves if the other does, and
to a state with the same rules and with arrays of the same shapes. This is so as long as nothing is
dropped: what is dropped in the one order for the sake of an equal definition stands in the way in
another order, in which the other definition comes first.

* `Program.Completes`: resolution returns and drops nothing.
* `State.Agrees`: two states have the same rules and arrays of the same shapes.
* `completes_of_perm`: resolution of the other program completes, and finds out nothing else.
* `completes_iff_of_perm`: in every order or in none.
-/

namespace PlateModel

open Compiling

variable {s t t' u v : State}

/-! ## What is left in the end -/

/-- What cannot be decided with the rules that have been found cannot be decided with fewer. -/
theorem State.Irreducible.mono (hu : u.registry.WellFormed) (ht : t.registry.WellFormed)
    (hle : t.Within u) {q : Expr → Prop} : ∀ {st : Stmt}, u.Irreducible st →
      st.Every Expr.SingleCells q → t.Irreducible st
  | .loop .., h, hst => by
    rintro a b ⟨v, hv, ha⟩ ⟨w, hw, hb⟩
    refine h a b ⟨v, ?_, ha⟩ ⟨w, ?_, hb⟩
    · exact comesTo_of_resolve ht hu hle.rules hst.1 hv hle.registry
    · exact comesTo_of_resolve ht hu hle.rules hst.2.1 hw hle.registry
  | .branch .., h, hst => fun b hb => h b (comesTo_of_resolve ht hu hle.rules hst.1 hb hle.registry)
  | .assign .., _, _ | .sample .., _, _ => trivial

/-- Statements that expand are definitions, if nothing is decided. -/
theorem Unfolds.isFlat_of_irreducible {ss flats : List Stmt} (h : Expands t ss flats)
    (hss : ∀ st ∈ ss, t.Irreducible st) : ∀ st ∈ ss, st.isFlat := by
  induction h with
  | nil => nofun
  | leaf hs _ ih =>
    exact List.forall_mem_cons.2 ⟨hs, ih fun st hst => hss st (List.mem_cons_of_mem _ hst)⟩
  | loop ha hb => exact absurd hb (hss _ (List.mem_cons_self ..) _ _ ha)
  | taken hguard | skipped hguard => exact absurd hguard (hss _ (List.mem_cons_self ..) _)

namespace Resolution

variable {w : Resolution} {results : List (Stmt × Absorption)}

/-- If a run has found every rule of the finished state, then nothing is left of definitions that
this settles. -/
theorem Rounds.leftOf_eq_nil {ss : List Stmt} (h : Rounds (.start ss) s w u)
    (hs : s.registry.WellFormed)
    (hss : Stmt.EveryOfAll Expr.SingleCells Expr.SingleCells ss) (ht : t.registry.WellFormed)
    (hu : t.Inside u) (hw : w.Settling t) (hrules : t.toDefinitions.Within u.toDefinitions)
    (hresults : w.attempt absorbStochastic u = (.ok results, v)) (hv : t.Inside v) :
    leftOf results = [] := by
  have hut : t.Within (t.withRules u.toDefinitions) := ⟨hrules, .refl _, fun _ _ h => h⟩
  have hsu := h.grows_any hs
  have hfst := attempt_fst absorbStochastic w _ _ _ hresults
  obtain ⟨flats, hflats, hsettles⟩ := hw.settles
  have hflat : ∀ st ∈ w.remaining, st.isFlat := by
    refine hflats.isFlat_of_irreducible fun st hst => ?_
    refine State.Irreducible.mono (u := t.withRules u.toDefinitions) ht ht hut ?_
      (Stmt.everyOfAll_iff.1 hw.single st hst)
    exact h.irreducible (t := t.withRules u.toDefinitions) hs ht rfl hu.within.registry
      stable_singleCells hss st hst
  refine List.eq_nil_iff_forall_not_mem.2 fun st hst => ?_
  obtain ⟨⟨st, a⟩, hr, rfl⟩ := List.mem_map.1 hst
  obtain ⟨hr, hleft⟩ := List.mem_filter.1 hr
  have hmem : st ∈ w.remaining := hfst ▸ List.mem_map_of_mem hr
  have hindices : st.Every Expr.SingleCells Expr.SingleIndices :=
    (Stmt.everyOfAll_iff.1 hw.single st hmem).singleIndices
  have hlowers : (t.withRules u.toDefinitions).Lowers st := by
    refine State.Lowers.mono (t := t.withRules u.toDefinitions) ht ht hut ?_ hindices
    exact (hsettles st (hflats.mem_of_isFlat hmem (hflat st hmem))).lowers
  have hbetween := between_of_attempt absorbStochastic_grows_any hresults
    hsu.registry.wellFormed _ hr
  cases st with
  | assign lhs rhs l =>
    exact h.not_lowers (t := t.withRules u.toDefinitions) hs ht rfl hu.within.registry hmem
      hindices hlowers
  | sample lhs rhs l =>
    cases a with
    | absorbed new => cases hleft
    | postponed why =>
      have hsame := rules_of_attempt hresults
      exact not_lowers_of_between (t := t.withRules u.toDefinitions) absorbStochastic_absorbs
        hbetween ht (by rw [hsame]) hsame hv.within.registry hindices hlowers
    | skipped =>
      obtain ⟨_, _, _, h, _⟩ := hbetween
      rcases (absorbStochastic_sample.1 h).2 with ⟨_, _, h⟩ | ⟨_, _, _, _, _, _, _, _, h, _⟩ <;>
        cases h
  | _ => cases hflat _ hmem

end Resolution

/-! ## Completion -/

section Completion

variable {p p' q : Program} {tally : Tally} {flats : List Stmt}

/-- Resolution of a program returns. -/
def Program.Resolves (p : Program) (s t : State) : Prop :=
  ∃ q tally, p.resolve s = (.ok (q, tally), t)

/-- Resolution completes a program: it returns, and it drops no definition of the expansion. -/
def Program.Completes (p : Program) (s t : State) : Prop :=
  ∃ q tally flats, p.resolve s = (.ok (q, tally), t) ∧ Expands t p.statements flats ∧
    q.statements.Perm flats

theorem Program.Resolves.unique (h : p.Resolves s t) (h' : p.Resolves s t') : t = t' := by
  obtain ⟨q, tally, h⟩ := h
  obtain ⟨q', tally', h'⟩ := h'
  have heq := h.symm.trans h'
  cases heq
  rfl

theorem Program.Completes.resolves (h : p.Completes s t) : p.Resolves s t := by
  obtain ⟨q, tally, flats, h, -⟩ := h
  exact ⟨q, tally, h⟩

/-- No two of some definitions are equal as trees. -/
def Stmt.Unlike (flats : List Stmt) : Prop := ∀ ⦃a b⦄, [a, b].Subperm flats → a.same b = false

theorem Stmt.Unlike.perm {flats flats' : List Stmt} (h : Stmt.Unlike flats)
    (hp : flats.Perm flats') : Stmt.Unlike flats' := fun _ _ hab => h (hab.trans hp.symm.subperm)

/-- Resolution completes what it resolves, unless two definitions are equal as trees. -/
theorem completes_of_resolves {data : List (String × Datum)}
    (hs : State.seed data .empty = (.ok (), s))
    (hp : Stmt.EveryOfAll Expr.SingleCells Expr.SingleIndices p.statements) (h : p.Resolves s t)
    (hunlike : ∀ {flats}, Expands t p.statements flats → Stmt.Unlike flats) :
    p.Completes s t := by
  obtain ⟨q, tally, h⟩ := h
  have hs := (State.seeded_of_seed hs).wellFormed
  obtain ⟨w, u, results, hrounds, hresults, hdone, hq⟩ := Program.resolve_eq_ok h
  obtain ⟨flats, hflats, hperm⟩ :=
    hrounds.expands hresults hs hp (Resolution.checkDone_eq_ok.1 hdone).1
  rw [← hq] at hperm
  have hnone : Resolution.leftOf results = [] := by
    refine List.eq_nil_iff_forall_not_mem.2 fun st hst => ?_
    obtain ⟨-, kept, hkept, hsame⟩ := hrounds.dropped_of_left hs hp hresults hdone st hst
    rw [← hq] at hkept
    have hboth : [kept, st].Subperm flats := ((List.singleton_subperm_iff.2 hkept).append
      (List.singleton_subperm_iff.2 hst)).trans hperm.symm.subperm
    rw [hunlike hflats hboth] at hsame
    cases hsame
  rw [hnone, List.append_nil] at hperm
  exact ⟨q, tally, flats, h, hflats, hperm.symm⟩

/-- The steps of a run, then the stochastic definitions, and nothing in the way. -/
theorem Program.resolve_of_run {w : Resolution} {results : List (Stmt × Absorption)}
    (hrun : (Resolution.start p.statements).run s = (.ok w, u))
    (hresults : w.attempt absorbStochastic u = (.ok results, t))
    (hdone : (w.record results).checkDone = .ok ()) : ∃ q tally,
      p.resolve s = (.ok (q, tally), t) ∧ q.statements = (w.record results).absorbed := by
  have hcheck : (liftM (w.record results).checkDone : Compiling Unit) t = (.ok (), t) := by
    rw [hdone]
    rfl
  refine ⟨{ p with statements := (w.record results).absorbed }, { (w.record results).tally with
    stochasticAdded := results.countP Resolution.isNew }, ?_, rfl⟩
  rw [resolve, run_bind_of_ok hrun, run_bind_of_ok hresults, run_bind_of_ok hcheck]
  rfl

/-- If resolution completes a program, it completes every program with the same statements in
another order, and finds out nothing else. -/
theorem completes_of_perm (hs : s.Seeded)
    (hp : Stmt.EveryOfAll Expr.SingleCells Expr.SingleCells p.statements)
    (hnames : Stmt.NamesApart p.statements) (hperm : p.statements.Perm p'.statements)
    (h : p.Completes s t) (hdistinct : ∀ {flats}, Expands t p.statements flats → t.Distinct flats) :
    ∃ t', p'.Completes s t' ∧ t'.Within t := by
  obtain ⟨q, tally, flats, h, hflats, hq⟩ := h
  have hst := (absorbed_of_resolve hs.wellFormed h).1
  have ht := hst.registry.wellFormed
  have hsettles := settles_of_resolve hs hp hnames h hflats hq (hdistinct hflats)
  have hp' : Stmt.EveryOfAll Expr.SingleCells Expr.SingleCells p'.statements := hp.perm hperm
  -- the run of the other program cannot fail on the way
  have hstart : t.Inside s := ⟨hst.within, hs.wellFormed, by rw [hs.logical]; exact List.nodup_nil⟩
  obtain ⟨flats', hflats', hpermflats⟩ := hflats.perm hperm
  have hsettling : (Resolution.start p'.statements).Settling t :=
    ⟨hp', flats', hflats', fun st hst => hsettles st (hpermflats.mem_iff.2 hst)⟩
  obtain ⟨w, u, hrun, hu, hw⟩ := Resolution.run_stays ht hsettling hstart
  have hrounds := Resolution.rounds_of_run hrun
  obtain ⟨results, t', hresults, ht', -⟩ := Resolution.attemptStochastic_stays ht hw hu
  -- and in the end nothing is left
  have hleft := hrounds.leftOf_eq_nil hs.wellFormed hp' ht hu hw
    (rules_within hs hp hperm h hrounds hu) hresults ht'
  have hdone : (w.record results).checkDone = .ok () :=
    Resolution.checkDone_eq_ok.2 (by
      rw [show (w.record results).remaining = [] from hleft]
      exact ⟨nofun, nofun⟩)
  obtain ⟨q', tally', hresolve, hq'⟩ := Program.resolve_of_run hrun hresults hdone
  obtain ⟨flats'', hflats'', hall⟩ := hrounds.expands hresults hs.wellFormed
    hp'.singleIndices (by rw [hleft]; nofun)
  rw [hleft, List.append_nil, ← hq'] at hall
  exact ⟨t', ⟨q', tally', flats'', hresolve, hflats'', hall.symm⟩, ht'.within⟩

/-- Two states have the same rules, and arrays of the same shapes. -/
structure State.Agrees (t t' : State) : Prop where
  logical : ∀ x, t.logical.get? x = t'.logical.get? x
  stochastic : ∀ x, t.stochastic.get? x = t'.stochastic.get? x
  shape : ∀ x, t.registry.shape? x = t'.registry.shape? x

theorem Registry.Within.antisymm {r r' : Registry} (h : r.Within r') (h' : r'.Within r)
    (x : String) : r.shape? x = r'.shape? x := by
  refine Option.ext fun shape => ⟨fun hx => ?_, fun hx => ?_⟩
  · obtain ⟨shape', hx', hle⟩ := h hx
    obtain ⟨shape'', hx'', hle'⟩ := h' hx'
    rw [hx] at hx''
    cases hx''
    rw [hx', forall₂_le_antisymm hle hle']
  · obtain ⟨shape', hx', hle⟩ := h' hx
    obtain ⟨shape'', hx'', hle'⟩ := h hx'
    rw [hx] at hx''
    cases hx''
    rw [hx', forall₂_le_antisymm hle hle']

theorem State.agrees_of_within (h : t.Within t') (h' : t'.Within t) : t.Agrees t' where
  logical _ := Option.ext fun _ => ⟨fun hx => h.rules.logical hx, fun hx => h'.rules.logical hx⟩
  stochastic _ := Option.ext fun _ => ⟨fun hx => h.stochastic hx, fun hx => h'.stochastic hx⟩
  shape := h.registry.antisymm h'.registry

/-- The order of statements does not matter: if two programs have the same statements, no slices in
them, no name both bare and as that of an array, and no two definitions of the same symbol in their
expansion, then resolution completes both or neither, and finds out the same. If moreover no two
definitions of the expansion are equal as trees, then it resolves both or neither. -/
theorem completes_iff_of_perm {data : List (String × Datum)}
    (hs : State.seed data .empty = (.ok (), s))
    (hp : Stmt.EveryOfAll Expr.SingleCells Expr.SingleCells p.statements)
    (hnames : Stmt.NamesApart p.statements) (hperm : p.statements.Perm p'.statements)
    (hdistinct : ∀ {t flats}, p.Completes s t ∨ p'.Completes s t → Expands t p.statements flats →
      t.Distinct flats) :
    ((∃ t, p.Completes s t) ↔ ∃ t, p'.Completes s t) ∧
    (∀ {t t'}, p.Completes s t → p'.Completes s t' → t.Agrees t') ∧
    ((∀ {t flats}, p.Resolves s t ∨ p'.Resolves s t → Expands t p.statements flats →
        Stmt.Unlike flats) →
      ((∃ t, p.Resolves s t) ↔ ∃ t, p'.Resolves s t) ∧
      ∀ {t t'}, p.Resolves s t → p'.Resolves s t' → t.Agrees t') := by
  have hseeded := State.seeded_of_seed hs
  have hp' : Stmt.EveryOfAll Expr.SingleCells Expr.SingleCells p'.statements := hp.perm hperm
  have hnames' : Stmt.NamesApart p'.statements := hnames.imp fun _ h => h.perm hperm
  have forth {t : State} (h : p.Completes s t) : ∃ t', p'.Completes s t' ∧ t'.Within t :=
    completes_of_perm hseeded hp hnames hperm h fun hflats => hdistinct (.inl h) hflats
  have back {t : State} (h : p'.Completes s t) : ∃ t', p.Completes s t' ∧ t'.Within t := by
    refine completes_of_perm hseeded hp' hnames' hperm.symm h fun hflats => ?_
    obtain ⟨flats', hflats', hflatsperm⟩ := hflats.perm hperm.symm
    exact (hdistinct (.inr h) hflats').perm hflatsperm.symm
  have iff : (∃ t, p.Completes s t) ↔ ∃ t, p'.Completes s t :=
    ⟨fun ⟨t, h⟩ => (forth h).imp fun _ h => h.1, fun ⟨t, h⟩ => (back h).imp fun _ h => h.1⟩
  have agree {t t' : State} (h : p.Completes s t) (h' : p'.Completes s t') : t.Agrees t' := by
    obtain ⟨u', hu', hle⟩ := forth h
    obtain ⟨u, hu, hle'⟩ := back h'
    cases h'.resolves.unique hu'.resolves
    cases h.resolves.unique hu.resolves
    exact State.agrees_of_within hle' hle
  refine ⟨iff, agree, fun hunlike => ?_⟩
  have complete {t : State} (h : p.Resolves s t) : p.Completes s t :=
    completes_of_resolves hs hp.singleIndices h
      fun hflats => hunlike (.inl h) hflats
  have complete' {t : State} (h : p'.Resolves s t) : p'.Completes s t := by
    refine completes_of_resolves hs hp'.singleIndices h
      fun hflats => ?_
    obtain ⟨flats', hflats', hflatsperm⟩ := hflats.perm hperm.symm
    exact (hunlike (.inr h) hflats').perm hflatsperm.symm
  refine ⟨⟨fun ⟨t, h⟩ => ?_, fun ⟨t, h⟩ => ?_⟩, fun h h' => agree (complete h) (complete' h')⟩
  · exact (iff.1 ⟨t, complete h⟩).imp fun _ h => h.resolves
  · exact (iff.2 ⟨t, complete' h⟩).imp fun _ h => h.resolves

/-- Defines a cell before the index that it stands at. -/
def late : Program :=
  ⟨[.assign (.index (.name "x") [.name "n"] none) (.literal (.int 5) 0) none,
    .assign (.name "n") (.literal (.int 2) 0) none], none⟩

/-- The same with the index first. -/
def early : Program := { late with statements := late.statements.reverse }

/-- What both come to. -/
def settledState : State :=
  { State.empty with
    registry := ⟨⟨[("x", ⟨[2], [⟨"x", [1]⟩, ⟨"x", [2]⟩], 0⟩)]⟩⟩
    logical := ⟨[("n", .literal (.int 2) 0), ("x[2]", .literal (.int 5) 0)]⟩ }

theorem resolve_late : late.resolve .empty =
    (.ok ({ late with statements := late.statements.reverse }, ⟨0, 0, 2, 0⟩), settledState) := by
  have hfirst : (Resolution.start late.statements).round .empty =
      (.ok (⟨late.statements.take 1, late.statements.drop 1,
        [(.assign (.index (.name "x") [.name "n"] none) (.literal (.int 5) 0) none,
          .model (.unresolvedIndex (.name "n")) none)], ⟨0, 0, 1, 0⟩⟩, 1),
        { State.empty with logical := ⟨[("n", .literal (.int 2) 0)]⟩ }) := rfl
  have hsecond : (⟨late.statements.take 1, late.statements.drop 1,
        [(.assign (.index (.name "x") [.name "n"] none) (.literal (.int 5) 0) none,
          .model (.unresolvedIndex (.name "n")) none)], ⟨0, 0, 1, 0⟩⟩ : Resolution).round
        { State.empty with logical := ⟨[("n", .literal (.int 2) 0)]⟩ } =
      (.ok (⟨[], late.statements.reverse, [], ⟨0, 0, 2, 0⟩⟩, 1), settledState) := rfl
  have hdone : (⟨[], late.statements.reverse, [], ⟨0, 0, 2, 0⟩⟩ : Resolution).round settledState =
      (.ok (⟨[], late.statements.reverse, [], ⟨0, 0, 2, 0⟩⟩, 0), settledState) := rfl
  have hrun : (Resolution.start late.statements).run .empty =
      (.ok ⟨[], late.statements.reverse, [], ⟨0, 0, 2, 0⟩⟩, settledState) := by
    rw [Resolution.run_of_round hfirst, if_neg (by decide), Resolution.run_of_round hsecond,
      if_neg (by decide), Resolution.run_of_round hdone, if_pos rfl]
  rw [Program.resolve, run_bind_of_ok hrun]
  rfl

theorem resolve_early : early.resolve .empty =
    (.ok (early, ⟨0, 0, 2, 0⟩), settledState) := by
  have hfirst : (Resolution.start early.statements).round .empty =
      (.ok (⟨[], early.statements, [], ⟨0, 0, 2, 0⟩⟩, 2), settledState) := rfl
  have hdone : (⟨[], early.statements, [], ⟨0, 0, 2, 0⟩⟩ : Resolution).round settledState =
      (.ok (⟨[], early.statements, [], ⟨0, 0, 2, 0⟩⟩, 0), settledState) := rfl
  have hrun : (Resolution.start early.statements).run .empty =
      (.ok ⟨[], early.statements, [], ⟨0, 0, 2, 0⟩⟩, settledState) := by
    rw [Resolution.run_of_round hfirst, if_neg (by decide), Resolution.run_of_round hdone,
      if_pos rfl]
  rw [Program.resolve, run_bind_of_ok hrun]
  rfl

theorem completes_late {t : State} (h : late.Completes .empty t ∨ early.Completes .empty t) :
    t = settledState := by
  rcases h with h | h
  · exact h.resolves.unique ⟨_, _, resolve_late⟩
  · exact h.resolves.unique ⟨_, _, resolve_early⟩

theorem distinct_late {flats : List Stmt} (h : Expands settledState late.statements flats) :
    settledState.Distinct flats := by
  have hself : Expands settledState late.statements late.statements := .refl (by decide)
  rw [h.unique hself]
  refine List.pairwise_pair.2 fun x y hx hy => ?_
  have hcell : settledState.Denotes (.index (.name "x") [.name "n"] none) (.cell ⟨"x", [2]⟩) :=
    ⟨_, rfl, rfl⟩
  have hname : settledState.Denotes (.name "n") (.scalar "n") := ⟨_, rfl, rfl⟩
  rw [State.Denotes.unique hx hcell, State.Denotes.unique hy hname]
  decide

theorem namesApart_late : Stmt.NamesApart late.statements :=
  ⟨(· = "x"), by simp [late, Stmt.EveryOfAll, Stmt.Every, Expr.Apart, Definitions.RefersIn,
    Expr.references, Expr.referencesOfAll]⟩

theorem completes_iff_late :
    ((∃ t, late.Completes .empty t) ↔ ∃ t, early.Completes .empty t) ∧
    (∀ {t t'}, late.Completes .empty t → early.Completes .empty t' → t.Agrees t') ∧
    ((∀ {t flats}, late.Resolves .empty t ∨ early.Resolves .empty t →
        Expands t late.statements flats → Stmt.Unlike flats) →
      ((∃ t, late.Resolves .empty t) ↔ ∃ t, early.Resolves .empty t) ∧
      ∀ {t t'}, late.Resolves .empty t → early.Resolves .empty t' → t.Agrees t') :=
  completes_iff_of_perm (show State.seed [] .empty = (.ok (), .empty) from rfl) (by decide)
    namesApart_late (List.reverse_perm _).symm fun h hflats => by
      obtain rfl := completes_late h
      exact distinct_late hflats

/-- The statements of `forgetful`, the truth value for an index last. -/
def reminded : Program := { forgetful with statements := forgetful.statements.reverse }

theorem not_resolves_reminded : ¬ reminded.Resolves .empty t := by
  rintro ⟨q, tally, h⟩
  have hround : (Resolution.start reminded.statements).round .empty =
      (.ok (.start reminded.statements, 0),
        { State.empty with registry := forgetfulState.registry }) := rfl
  have hfails : reminded.resolve .empty =
      (.error (.model (.unresolvedIndex (.literal (.truth true) 0)) none), forgetfulState) := by
    rw [Program.resolve, run_bind_of_ok (Resolution.run_of_round hround)]
    rfl
  rw [hfails] at h
  cases h

theorem namesApart_forgetful : Stmt.NamesApart forgetful.statements :=
  ⟨(· = "x"), by simp [forgetful, standardNormal, Stmt.EveryOfAll, Stmt.Every, Expr.Apart,
    Definitions.RefersIn, Expr.references, Expr.referencesOfAll]⟩

theorem distinct_forgetful {flats : List Stmt}
    (h : Expands forgetfulState forgetful.statements flats) : forgetfulState.Distinct flats := by
  have hself : Expands forgetfulState forgetful.statements forgetful.statements :=
    .refl (by decide)
  rw [h.unique hself]
  refine List.pairwise_pair.2 fun x y hx _ => ?_
  -- a truth value is no index, so the first statement is of no symbol
  obtain ⟨z, hz, -⟩ := hx
  cases hz

/-- The truth value stands in the way only where it comes last: in one order nothing is wrong with
what is an unresolved index in the other. -/
theorem resolve_depends_on_order :
    ¬ ∀ (data : List (String × Datum)) (s : State) (p p' : Program),
      State.seed data .empty = (.ok (), s) →
      Stmt.EveryOfAll Expr.SingleCells Expr.SingleCells p.statements →
      Stmt.NamesApart p.statements → p.statements.Perm p'.statements →
      (∀ t flats, p.Resolves s t ∨ p'.Resolves s t → Expands t p.statements flats →
        t.Distinct flats) →
      ((∃ t, p.Resolves s t) ↔ ∃ t, p'.Resolves s t) := by
  intro claim
  have hforgetful : forgetful.Resolves .empty forgetfulState := ⟨_, _, resolve_forgetful⟩
  have hdistinct (t : State) (flats : List Stmt)
      (h : forgetful.Resolves .empty t ∨ reminded.Resolves .empty t)
      (hflats : Expands t forgetful.statements flats) : t.Distinct flats := by
    rcases h with h | h
    · obtain rfl := h.unique hforgetful
      exact distinct_forgetful hflats
    · exact absurd h not_resolves_reminded
  obtain ⟨t, h⟩ := (claim [] .empty forgetful reminded rfl (by decide) namesApart_forgetful
    (List.reverse_perm _).symm hdistinct).1 ⟨_, hforgetful⟩
  exact not_resolves_reminded h

end Completion

end PlateModel
