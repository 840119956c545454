import PlateModel.Proofs.Confluence.Progress
import PlateModel.Proofs.Confluence.Sources

/-!
# Resolution finds out everything

A run ends with a round in which nothing is unrolled, decided or added. Then nothing that is left
can be unrolled, decided or lowered with the rules that have been found, even if every array has its
final size. Another run that ends in a finished state cannot have found out more: each of its steps
only uses what this one knows.

* `State.Irreducible`: the rules say nothing of what becomes of a loop or a conditional.
* `Resolution.Rounds.irreducible`: so it is with all that a run leaves.
* `Unfolds.mem_of_irreducible`: however statements unfold, the definitions are the same in the end.
* `Resolution.Rounds.inside`: another run finds out nothing else.
-/

namespace PlateModel

open Compiling

/-! ## What is decided -/

section Decided

variable {t u : State} {lower upper condition : Expr}

/-- Under the same definitions, a loop that has bounds in the end has them before. -/
theorem loopBounds_of_bound (ht : t.registry.WellFormed)
    (hrules : u.toDefinitions = t.toDefinitions) (hu : u.registry.WellFormed)
    (hle : u.registry.Within t.registry) {a b : Int} (ha : t.Bound lower a) (hb : t.Bound upper b)
    (hlower : lower.SingleCells) (hupper : upper.SingleCells) (l : Option Location) :
    ∃ v, loopBounds lower upper l u = (.ok (some (a, b)), v) := by
  obtain ⟨v, hv, ha⟩ := ha
  obtain ⟨w, hw, hb⟩ := hb
  obtain ⟨r, hr, hwf, hle⟩ := Definitions.resolve_repeats ht hlower hv hu hle
  obtain ⟨r', hr', -, -⟩ := Definitions.resolve_repeats ht hupper hw hwf hle
  rw [← hrules] at hr hr'
  exact ⟨_, loopBounds_eq_ok.2 ⟨v, w, r, r', hr, hr', ha, hb, rfl⟩⟩

/-- Under the same definitions, a conditional that has a truth value in the end has it before. -/
theorem guardValue_of_guard (ht : t.registry.WellFormed)
    (hrules : u.toDefinitions = t.toDefinitions) (hu : u.registry.WellFormed)
    (hle : u.registry.Within t.registry) {b : Bool} (hb : t.Guard condition b)
    (hcondition : condition.SingleCells) (l : Option Location) :
    ∃ v, guardValue condition l u = (.ok (some b), v) := by
  obtain ⟨r, hr, -, -⟩ := Definitions.resolve_repeats ht hcondition hb hu hle
  rw [← hrules] at hr
  exact ⟨_, guardValue_eq_ok.2 ⟨r, hr, rfl⟩⟩

end Decided

variable {s s' t u v : State}

/-- A state does not say what becomes of a loop or a conditional. -/
def State.Irreducible (t : State) : Stmt → Prop
  | .loop _ lower upper _ _ => ∀ a b, t.Bound lower a → ¬ t.Bound upper b
  | .branch guard _ _ => ∀ b, ¬ t.Guard guard b
  | _ => True

/-- Where nothing is unrolled, no loop can be. -/
theorem irreducible_of_unrollAll (ht : t.registry.WellFormed) {q : Expr → Prop} :
    ∀ {ss ss' : List Stmt} {s s' : State}, unrollAll [] ss s = (.ok (ss', 0), s') →
      s.toDefinitions = t.toDefinitions → s.registry.WellFormed →
      s'.registry.Within t.registry → Stmt.EveryOfAll Expr.SingleCells q ss →
      ∀ {i lower upper body l}, .loop i lower upper body l ∈ ss →
        t.Irreducible (.loop i lower upper body l)
  | [], _, _, _, _, _, _, _, _, _, _, _, _, _, hst => nomatch hst
  | st :: rest, _, s, s', h, hrules, hs, hle, hss, i, lower, upper, body, l, hst => by
    obtain ⟨us, j, u, vs, k, hu, hv, rfl, hn⟩ := unrollAll_cons_eq_ok.1 h
    obtain ⟨rfl, rfl⟩ : j = 0 ∧ k = 0 := by omega
    obtain ⟨hsu, heq⟩ := (unroll_refers Mapping.literal_nil (Stmt.refersIn_any st)).of_eq hu hs
    have hus' := ((unrollAll_refers Mapping.literal_nil (Stmt.refersInAll_any rest)).of_eq hv
      hsu.wellFormed).1
    rcases List.mem_cons.1 hst with rfl | hst
    · intro a b ha hb
      have hsle := hsu.within.trans (hus'.within.trans hle)
      obtain ⟨_, hbounds⟩ := loopBounds_of_bound ht hrules hs hsle ha hb hss.1.1 hss.1.2.1 l
      rcases unroll_loop_eq_ok.1 hu with ⟨hnone, -⟩ | ⟨_, _, _, _, _, _, _, h⟩
      · rw [Expr.substitute_nil, Expr.substitute_nil, hbounds] at hnone
        cases hnone
      · omega
    · refine irreducible_of_unrollAll ht hv ?_ hsu.wellFormed hle hss.2 hst
      rw [heq]
      exact hrules

/-- Where nothing is decided, no conditional can be. -/
theorem irreducible_of_decideAll (ht : t.registry.WellFormed) {q : Expr → Prop} :
    ∀ {ss ss' : List Stmt} {s s' : State}, decideAll ss s = (.ok (ss', 0), s') →
      s.toDefinitions = t.toDefinitions → s.registry.WellFormed →
      s'.registry.Within t.registry → Stmt.EveryOfAll Expr.SingleCells q ss →
      ∀ {guard body l}, .branch guard body l ∈ ss → t.Irreducible (.branch guard body l)
  | [], _, _, _, _, _, _, _, _, _, _, _, hst => nomatch hst
  | st :: rest, _, s, s', h, hrules, hs, hle, hss, guard, body, l, hst => by
    obtain ⟨us, j, u, vs, k, hu, hv, rfl, hn⟩ := decideAll_cons_eq_ok.1 h
    obtain ⟨rfl, rfl⟩ : j = 0 ∧ k = 0 := by omega
    obtain ⟨hsu, heq⟩ := (decideIn_refers (Stmt.refersIn_any st)).of_eq hu hs
    have hus' := ((decideAll_refers (Stmt.refersInAll_any rest)).of_eq hv hsu.wellFormed).1
    rcases List.mem_cons.1 hst with rfl | hst
    · intro b hb
      have hsle := hsu.within.trans (hus'.within.trans hle)
      obtain ⟨_, hvalue⟩ := guardValue_of_guard ht hrules hs hsle hb hss.1.1 l
      rcases decideIn_branch_eq_ok.1 hu with ⟨hnone, -⟩ | ⟨-, -, h⟩ | ⟨_, _, _, _, h⟩
      · rw [hvalue] at hnone
        cases hnone
      · omega
      · omega
    · refine irreducible_of_decideAll ht hv ?_ hsu.wellFormed hle hss.2 hst
      rw [heq]
      exact hrules

/-- If nothing more can be unfolded in the one unfolding, it has all definitions of the other. -/
theorem Unfolds.mem_of_irreducible {leaf : Stmt → Prop} {V ss leaves leaves' : List Stmt}
    (hV : ∀ st ∈ V, t.Irreducible st) (h : Unfolds leaf t ss leaves)
    (h' : Unfolds (· ∈ V) t ss leaves') {st : Stmt} (hst : st ∈ leaves) (hflat : st.isFlat) :
    st ∈ V := by
  induction h generalizing leaves' with
  | nil => cases hst
  | leaf _ _ ih =>
    rcases List.mem_cons.1 hst with rfl | hst
    · cases h' with
      | leaf hs => exact hs
      | loop | taken | skipped => cases hflat
    · obtain ⟨f, f', -, -, hrest⟩ := h'.cons_inv
      exact ih hrest hst
  | loop ha hb _ _ ih₁ ih₂ =>
    cases h' with
    | leaf hs => exact absurd hb (hV _ hs _ _ ha)
    | loop ha' hb' hbody hrest =>
      cases ha.unique ha'
      cases hb.unique hb'
      rcases List.mem_append.1 hst with hst | hst
      · exact ih₁ hbody hst
      · exact ih₂ hrest hst
  | taken hguard _ _ ih₁ ih₂ =>
    cases h' with
    | leaf hs => exact absurd hguard (hV _ hs _)
    | taken _ hbody hrest =>
      rcases List.mem_append.1 hst with hst | hst
      · exact ih₁ hbody hst
      · exact ih₂ hrest hst
    | skipped hguard' => cases hguard.unique hguard'
  | skipped hguard _ ih =>
    cases h' with
    | leaf hs => exact absurd hguard (hV _ hs _)
    | taken hguard' => cases hguard.unique hguard'
    | skipped _ hrest => exact ih hrest hst

namespace Resolution

variable {w w' : Resolution} {ss : List Stmt}

/-! ## What a run leaves -/

/-- Nothing that a run leaves can be unrolled or decided with the rules that it has found. -/
theorem Rounds.irreducible (h : Rounds w s w' s') (hs : s.registry.WellFormed)
    (ht : t.registry.WellFormed) (hrules : s'.toDefinitions = t.toDefinitions)
    (hle : s'.registry.Within t.registry) {q : Expr → Prop} (hq : Stable q)
    (hw : Stmt.EveryOfAll Expr.SingleCells q w.remaining) :
    ∀ st ∈ w'.remaining, t.Irreducible st := by
  obtain ⟨w₀, s₀, s₁, s₂, hs₀, hevery, hunroll, hdecide, habsorb⟩ := h.exists_last hs
  have hw₀ := hevery stable_singleCells hq hw
  obtain ⟨ss, hunroll, heq⟩ := unrollLoops_eq_ok.1 hunroll
  obtain ⟨ss', hdecide, heq'⟩ := decideConditionals_eq_ok.1 hdecide
  obtain ⟨h₁, hs₁⟩ := (unrollAll_refers Mapping.literal_nil (Stmt.refersInAll_any _)).of_eq hunroll
    hs₀.registry.wellFormed
  obtain ⟨h₂, hs₂⟩ := (decideAll_refers (Stmt.refersInAll_any _)).of_eq hdecide h₁.wellFormed
  have h₃ := (Step.absorb habsorb).grows_any h₂.wellFormed
  obtain ⟨u, results, hu, hrules₂, hresults, hsize, hremaining, -⟩ :=
    attempt_of_absorbDefinitions habsorb h₂.wellFormed
  -- no rule has been added since the beginning of the round
  have hrules₁ : s₂.toDefinitions = s₁.toDefinitions := by rw [hs₂]
  have hrules₀ : s₁.toDefinitions = s₀.toDefinitions := by rw [hs₁]
  have hlast : s'.toDefinitions = s₂.toDefinitions := h₃.rules_eq (Nat.le_of_eq (by
    rw [hsize, ← hrules₂]))
  have hle₂ := h₃.registry.within.trans hle
  intro st hst
  have hst : st ∈ w₀.remaining := by
    rw [← attempt_fst absorbLogical w₀ _ _ _ hresults]
    rw [hremaining] at hst
    exact ((List.filter_sublist ..).map _).subset hst
  cases st with
  | loop i lower upper body l =>
    refine irreducible_of_unrollAll ht hunroll ?_ hs₀.registry.wellFormed
      (h₂.within.trans hle₂) hw₀ hst
    rw [← hrules₀, ← hrules₁, ← hlast, hrules]
  | branch guard body l =>
    refine irreducible_of_decideAll ht hdecide ?_ h₁.wellFormed hle₂ hw₀ hst
    rw [← hrules₁, ← hlast, hrules]
  | assign | sample => trivial

/-- A logical definition that a run leaves cannot be lowered with the rules that it has found. -/
theorem Rounds.not_lowers (h : Rounds w s w' s') (hs : s.registry.WellFormed)
    (ht : t.registry.WellFormed) (hrules : s'.toDefinitions = t.toDefinitions)
    (hle : s'.registry.Within t.registry) {lhs rhs : Expr} {l : Option Location}
    (hst : .assign lhs rhs l ∈ w'.remaining)
    (hindices : (Stmt.assign lhs rhs l).Every Expr.SingleCells Expr.SingleIndices) :
    ¬ t.Lowers (.assign lhs rhs l) := by
  obtain ⟨w₀, u, results, hsu, hresults, hsize, hremaining, -⟩ := h.last_round hs
  rw [hremaining] at hst
  obtain ⟨⟨st, a⟩, hr, rfl⟩ := List.mem_map.1 hst
  obtain ⟨hr, hleft⟩ := List.mem_filter.1 hr
  have hbetween := between_of_attempt absorbLogical_grows_any hresults hsu.registry.wellFormed _ hr
  cases a with
  | absorbed new => cases hleft
  | postponed why =>
    exact not_lowers_of_between absorbLogical_absorbs hbetween ht hsize hrules hle hindices
  | skipped =>
    obtain ⟨_, _, _, h, _⟩ := hbetween
    rcases absorbLogical_assign.1 h with ⟨_, _, h⟩ | ⟨_, _, _, _, _, _, h, _⟩ <;> cases h

end Resolution

/-! ## What another run finds out -/

/-- The finished state with only the rules that a run has found. -/
def State.withRules (t : State) (d : Definitions) : State := { t with toDefinitions := d }

/-- A state is on the way to the finished one if its rules are also among those of a run. -/
theorem absorbLogical_inside {d : Definitions} (ht : t.registry.WellFormed)
    (hd : d.Within t.toDefinitions) {st : Stmt} {a : Absorption}
    (h : absorbLogical st u = (.ok a, v)) (hle : v.Within t) (hu : (t.withRules d).Inside u)
    {p : Expr → Prop} (hst : st.Every p Expr.SingleCells)
    (hdefined : ∀ {lhs rhs l x}, st = .assign lhs rhs l → (t.withRules d).Lowers st →
      t.Denotes lhs x → t.data.get? x.name = none → d.logical.contains x.name) :
    (t.withRules d).Inside v := by
  cases st with
  | assign lhs rhs l =>
    rcases absorbLogical_assign.1 h with
      ⟨why, hlowered, rfl⟩ | ⟨x, e, u', o, hlowered, ho, rfl, rfl⟩
    · have hwf := State.wellFormed_of_lowered hlowered hu.wellFormed
      obtain ⟨-, r, rfl, -⟩ := lowered_eq_unresolved hlowered
      exact hu.withRegistry hwf hle.registry
    · have hwf := State.wellFormed_of_lowered hlowered hu.wellFormed
      have hu'le := (State.within_addLogical hwf ho).trans hle
      have hu' : (t.withRules d).Inside u' := by
        obtain ⟨_, _, r, _, _, _, _, rfl⟩ := lowered_eq_ok.1 hlowered
        exact hu.withRegistry hwf hu'le.registry
      rcases State.addLogical_eq_ok.1 ho with
        ⟨-, ⟨_, _, _, rfl⟩ | ⟨_, _, _, _, rfl⟩ | ⟨hdata, -, rfl⟩⟩
      · exact hu'
      · exact hu'
      · -- the run has found a rule for the symbol, and it is that of the finished state
        obtain ⟨hx, he⟩ := State.lowers_of_lowered hlowered hu.wellFormed ht hu'le hst.1 hst.2
        obtain ⟨hx', he'⟩ := State.lowers_of_lowered (t := t.withRules d) hlowered hu.wellFormed ht
          hu'.within hst.1 hst.2
        have hdata' : t.data.get? x.name = none := by rw [← hu'le.rules.data_eq, hdata]
        obtain ⟨rule, hrule⟩ :=
          Assoc.contains_iff.1 (hdefined rfl ⟨⟨x, hx'⟩, e, he'⟩ hx hdata')
        have heq := hd.logical hrule
        rw [hle.rules.logical Assoc.get?_put_self] at heq
        cases heq
        exact hu'.putLogical hrule
  | _ => cases h; exact hu

namespace Resolution

variable {w w' : Resolution} {ss : List Stmt}

/-- Another run stays among the rules of this one, if this one has found a rule for every definition
that can be lowered. -/
theorem Rounds.inside {d : Definitions} (h : Rounds (.start ss) s w' s')
    (hs : s.registry.WellFormed) (ht : t.registry.WellFormed) (hle : s'.Within t)
    (hd : d.Within t.toDefinitions) (hstart : (t.withRules d).Inside s)
    (hss : Stmt.EveryOfAll Expr.SingleCells Expr.SingleCells ss)
    (hdefined : ∀ {leaves}, Unfolds (fun _ => True) (t.withRules d) ss leaves →
      ∀ {lhs rhs l x}, .assign lhs rhs l ∈ leaves → (t.withRules d).Lowers (.assign lhs rhs l) →
        t.Denotes lhs x → t.data.get? x.name = none → d.logical.contains x.name) :
    (t.withRules d).Inside s' := by
  refine (h.invariant (motive := fun w u =>
    Stmt.EveryOfAll Expr.SingleCells Expr.SingleCells w.remaining ∧ (t.withRules d).Inside u ∧
      ∀ {leaves}, Unfolds (fun _ => True) (t.withRules d) w.remaining leaves → ∃ leaves',
        Unfolds (fun _ => True) (t.withRules d) ss leaves' ∧ w.absorbed ++ leaves ⊆ leaves')
    hs hle ?_ ⟨hss, hstart, fun hleaves => ⟨_, hleaves, List.Subset.refl _⟩⟩).2.1
  rintro v v' n u u' hstep hu hu' - ⟨hv, hinside, hunfolds⟩
  have hinside' : (t.withRules d).Inside u' := by
    refine hstep.preserves (t := t) (fun hr hr' hinside => hinside.withRegistry hr hr') ?_ hu hu'
      hinside
    intro st a u u' hst _ hu hu' habsorb hinside
    refine absorbLogical_inside ht hd habsorb hu' hinside (Stmt.everyOfAll_iff.1 hv st hst) ?_
    rintro lhs rhs l x rfl hlowers hx hdata
    obtain ⟨leaves, hleaves, hsubset⟩ := hunfolds (.refl fun _ _ => trivial)
    exact hdefined hleaves (hsubset (List.mem_append_right _ hst)) hlowers hx hdata
  refine ⟨hstep.every stable_singleCells stable_singleCells hv, hinside', fun hleaves => ?_⟩
  obtain ⟨leaves, hleaves, hperm⟩ := hstep.unfolds (t := t.withRules d) hu ht hinside'.within
    hv.singleIndices (fun _ _ _ => trivial) hleaves
  obtain ⟨leaves', hleaves', hsubset⟩ := hunfolds hleaves
  exact ⟨leaves', hleaves', List.Subset.trans hperm.symm.subset hsubset⟩

end Resolution

/-! ## The rules of two runs -/

section Runs

variable {p p' q : Program} {tally : Tally} {w : Resolution} {ss : List Stmt}

theorem State.irreducible_of_isFlat {st : Stmt} (h : st.isFlat) : t.Irreducible st := by
  cases st with
  | assign | sample => trivial
  | _ => cases h

/-- The statements of a run unfold to what it has absorbed and what it leaves, and nothing more can
be unfolded with the rules that it has found. -/
theorem Resolution.Rounds.unfolds_irreducible (h : Rounds (.start ss) s w u)
    (hs : s.registry.WellFormed)
    (hss : Stmt.EveryOfAll Expr.SingleCells Expr.SingleIndices ss) (hu : t.Inside u)
    (ht : t.registry.WellFormed) :
    (∀ st ∈ w.absorbed ++ w.remaining, (t.withRules u.toDefinitions).Irreducible st) ∧
      ∃ leaves,
        Unfolds (· ∈ w.absorbed ++ w.remaining) (t.withRules u.toDefinitions) ss leaves := by
  have hut : u.Within (t.withRules u.toDefinitions) :=
    ⟨.refl _, hu.within.registry, hu.within.stochastic⟩
  constructor
  · refine List.forall_mem_append.2 ⟨fun st hst => ?_, ?_⟩
    · rcases h.absorbed hs st hst with hst | ⟨new, hst⟩
      · cases hst
      · exact State.irreducible_of_isFlat (isFlat_of_absorbed (r := (st, .absorbed new))
          absorbLogical_absorbs hst rfl)
    · exact h.irreducible (t := t.withRules u.toDefinitions) hs ht rfl hu.within.registry
        stable_singleIndices hss
  · have hremaining : Unfolds (· ∈ w.absorbed ++ w.remaining) (t.withRules u.toDefinitions)
        w.remaining w.remaining := .refl fun st hst => List.mem_append_right _ hst
    obtain ⟨leaves, hleaves, -⟩ := h.unfolds (t := t.withRules u.toDefinitions) hs ht hut hss
      (fun st hst _ => List.mem_append_left _ hst) hremaining
    exact ⟨leaves, hleaves⟩

/-- A run finds a rule for every logical definition that can be lowered with the rules that it has
found, unless data bind its symbol. -/
theorem Resolution.Rounds.contains_of_lowers (h : Rounds (.start ss) s w u)
    (hs : s.registry.WellFormed) (hu : t.Inside u) (ht : t.registry.WellFormed)
    {lhs rhs : Expr} {l : Option Location} {x : Symbol}
    (hst : .assign lhs rhs l ∈ w.absorbed ++ w.remaining)
    (hindices : (Stmt.assign lhs rhs l).Every Expr.SingleCells Expr.SingleIndices)
    (hlowers : (t.withRules u.toDefinitions).Lowers (.assign lhs rhs l)) (hx : t.Denotes lhs x)
    (hdata : t.data.get? x.name = none) : u.logical.contains x.name := by
  rcases List.mem_append.1 hst with hst | hst
  · rcases h.absorbed hs _ hst with hst | ⟨new, hst⟩
    · cases hst
    · have habsorbed : AbsorbedBetween s u (.assign lhs rhs l) := ⟨new, .inl hst⟩
      obtain ⟨y, hy, hrule⟩ := (habsorbed.defines hu.wellFormed hindices).2
      rw [hx.unique (hy.mono hu.wellFormed ht hu.within hindices.1)] at hdata ⊢
      refine hrule.resolve_left fun hbound => ?_
      obtain ⟨v, hv⟩ := Assoc.contains_iff.1 hbound
      rw [hu.within.rules.data_eq, hdata] at hv
      cases hv
  · exact absurd hlowers (h.not_lowers (t := t.withRules u.toDefinitions) hs ht rfl
      hu.within.registry hst hindices)

/-- A run of the same statements in another order finds every rule of the finished state. -/
theorem rules_within (hs : s.Seeded)
    (hp : Stmt.EveryOfAll Expr.SingleCells Expr.SingleCells p.statements)
    (hperm : p.statements.Perm p'.statements) (h : p.resolve s = (.ok (q, tally), t))
    (hrounds' : Resolution.Rounds (.start p'.statements) s w u) (hu : t.Inside u) :
    t.toDefinitions.Within u.toDefinitions := by
  have ht := (absorbed_of_resolve hs.wellFormed h).1.registry.wellFormed
  have hsu := hrounds'.grows_any hs.wellFormed
  have hut : u.Within (t.withRules u.toDefinitions) :=
    ⟨.refl _, hu.within.registry, hu.within.stochastic⟩
  have hstart : (t.withRules u.toDefinitions).Inside s :=
    ⟨hsu.within.trans hut, hs.wellFormed, by rw [hs.logical]; exact List.nodup_nil⟩
  obtain ⟨hirreducible, leaves', hleaves'⟩ := hrounds'.unfolds_irreducible hs.wellFormed
    ((hp.perm hperm).singleIndices) hu ht
  obtain ⟨leaves₀, hleaves₀, -⟩ := hleaves'.perm hperm.symm
  -- the run that ends in the finished state stays among the rules of this one
  obtain ⟨w₀, u₀, results, hrounds, hresults, -, -⟩ := Program.resolve_eq_ok h
  have hu₀t := Resolution.grows_of_attempt Resolution.absorbStochastic_grows_any hresults
      (hrounds.grows_any hs.wellFormed).registry.wellFormed
  rw [Resolution.rules_of_attempt hresults]
  refine (hrounds.inside (d := u.toDefinitions) hs.wellFormed ht hu₀t.within hu.within.rules hstart
    hp fun {_} hleaves {lhs rhs l x} hst hlowers hx hdata => ?_).within.rules
  have hevery := Stmt.everyOfAll_iff.1
    (hleaves.every stable_singleCells stable_singleCells hp) _ hst
  exact hrounds'.contains_of_lowers hs.wellFormed hu ht
    (hleaves.mem_of_irreducible hirreducible hleaves₀ hst rfl)
    hevery.singleIndices hlowers hx hdata

end Runs

end PlateModel
