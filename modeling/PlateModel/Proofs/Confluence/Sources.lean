import Mathlib.Data.List.Pairwise
import PlateModel.Proofs.Confluence.Finished
import PlateModel.Proofs.Expansion.Completeness

/-!
# Where the rules come from

Every rule of a state that resolution returns comes from a definition that it has absorbed, and is
what this definition says in that state. If no two definitions of the expansion are of the same
symbol and nothing has been dropped, then the state holds exactly what the expansion says.

* `Step.preserves`, `attempt_preserves`: what every absorption keeps, a step keeps.
* `State.Sourced`: the rules of a state come from some definitions.
* `sourced_of_resolve`: so it is with what resolution returns.
* `settles_of_resolve`: resolution that drops nothing settles the expansion.
-/

namespace PlateModel

open Compiling

variable {s s' t u v : State}

/-! ## Properties that absorbing keeps -/

namespace Resolution

variable {P : State → Prop} {w w' : Resolution} {n : Nat} {results : List (Stmt × Absorption)}

theorem mapM_preserves {f : Stmt → Compiling Absorption}
    (hgrows : ∀ st, Grows (fun _ => True) (f st)) :
    ∀ {ss : List Stmt} {as : List Absorption} {s s' : State}, ss.mapM f s = (.ok as, s') →
      (∀ r ∈ ss.zip as, ∀ {u v}, u.registry.WellFormed → v.Within t → f r.1 u = (.ok r.2, v) →
        P u → P v) →
      s.registry.WellFormed → s'.Within t → P s → P s'
  | [], _, _, _, h, _, _, _, hP => by
    rw [List.mapM_nil] at h
    cases h
    exact hP
  | st :: ss, _, s, s', h, hf, hs, hle, hP => by
    rw [List.mapM_cons] at h
    obtain ⟨a, u, ha, h⟩ := run_bind_eq_ok.1 h
    obtain ⟨as, v, has, h⟩ := run_bind_eq_ok.1 h
    cases h
    have hu := ((hgrows st).of_eq ha hs).registry.wellFormed
    have hus' := (Grows.mapM fun st _ => hgrows st).of_eq has hu
    rw [List.zip_cons_cons] at hf
    refine mapM_preserves hgrows has (fun r hr => hf r (List.mem_cons_of_mem _ hr)) hu hle ?_
    exact hf _ (List.mem_cons_self ..) hs (hus'.within.trans hle) ha hP

/-- An attempt keeps of the state what every absorption keeps. -/
theorem attempt_preserves {f : Stmt → Compiling Absorption}
    (hgrows : ∀ st, Grows (fun _ => True) (f st)) (h : w.attempt f s = (.ok results, s'))
    (hf : ∀ r ∈ results, ∀ {u v}, u.registry.WellFormed → v.Within t → f r.1 u = (.ok r.2, v) →
      P u → P v) (hs : s.registry.WellFormed) (hle : s'.Within t) (hP : P s) : P s' := by
  obtain ⟨as, has, rfl⟩ := attempt_eq_ok.1 h
  exact mapM_preserves hgrows has hf hs hle hP

/-- A step keeps of the state what the registry has no part in and every absorption keeps. -/
theorem Step.preserves (h : Step w s w' n s')
    (hrefer : ∀ {u : State} {r : Registry}, r.WellFormed → r.Within t.registry → P u →
      P { u with registry := r })
    (habsorb : ∀ {st a u v}, st ∈ w.remaining → (isLeft (st, a) = false → st ∈ w'.absorbed) →
      u.registry.WellFormed → v.Within t → absorbLogical st u = (.ok a, v) → P u → P v)
    (hs : s.registry.WellFormed) (hle : s'.Within t) (hP : P s) : P s' := by
  cases h with
  | unroll h =>
    obtain ⟨ss, hss, rfl⟩ := unrollLoops_eq_ok.1 h
    obtain ⟨hr, heq⟩ := (unrollAll_refers Mapping.literal_nil (Stmt.refersInAll_any _)).of_eq hss hs
    rw [heq]
    exact hrefer hr.wellFormed hle.registry hP
  | decide h =>
    obtain ⟨ss, hss, rfl⟩ := decideConditionals_eq_ok.1 h
    obtain ⟨hr, heq⟩ := (decideAll_refers (Stmt.refersInAll_any _)).of_eq hss hs
    rw [heq]
    exact hrefer hr.wellFormed hle.registry hP
  | absorb h =>
    obtain ⟨u, results, hu, hresults, -, rfl⟩ := absorbDefinitions_eq_ok.1 h
    obtain ⟨hr, heq⟩ := (absorbDefinitions_refers (Stmt.refersInAll_any _)).of_eq hu hs
    have hus' := grows_of_attempt absorbLogical_grows_any hresults hr.wellFormed
    have hfst := attempt_fst absorbLogical w _ _ _ hresults
    refine attempt_preserves absorbLogical_grows_any hresults (fun r hr' => ?_) hr.wellFormed hle ?_
    · refine habsorb (hfst ▸ List.mem_map_of_mem hr') fun hleft => List.mem_append_right _ ?_
      exact List.mem_map_of_mem (List.mem_filter.2 ⟨hr', by simp [hleft]⟩)
    · rw [heq]
      exact hrefer hr.wellFormed (hus'.registry.within.trans hle.registry) hP

end Resolution

/-! ## Sources -/

namespace State

/-- In the finished state, the rules of a state are what some definitions say of a symbol. -/
structure Sourced (t : State) (ss : List Stmt) (u : State) : Prop where
  logical : ∀ {k e}, u.logical.get? k = some e → ∃ lhs rhs l x, .assign lhs rhs l ∈ ss ∧
    t.Denotes lhs x ∧ x.name = k ∧ t.LowersTo rhs e
  stochastic : ∀ {k g}, u.stochastic.get? k = some g → ∃ lhs rhs l x e, .sample lhs rhs l ∈ ss ∧
    t.Denotes lhs x ∧ x.name = k ∧ t.LowersTo rhs e ∧ Generator.ofExpr e = .ok g

theorem Sourced.withRegistry {ss : List Stmt} {r : Registry} (h : t.Sourced ss u) :
    t.Sourced ss { u with registry := r } := ⟨h.logical, h.stochastic⟩

theorem Sourced.mono {ss ss' : List Stmt} (h : t.Sourced ss u) (hss : ss ⊆ ss') :
    t.Sourced ss' u where
  logical hk := by
    obtain ⟨lhs, rhs, l, x, hst, h⟩ := h.logical hk
    exact ⟨lhs, rhs, l, x, hss hst, h⟩
  stochastic hk := by
    obtain ⟨lhs, rhs, l, x, e, hst, h⟩ := h.stochastic hk
    exact ⟨lhs, rhs, l, x, e, hss hst, h⟩

theorem Seeded.sourced (hs : s.Seeded) (ss : List Stmt) : t.Sourced ss s where
  logical h := by rw [hs.logical] at h; cases h
  stochastic h := by rw [hs.stochastic] at h; cases h

/-- Whatever else a state says of what stands for a symbol, the finished state says the same. -/
theorem lowers_of_lowered {lhs rhs e : Expr} {l : Option Location} {x : Symbol}
    (h : lowered lhs rhs l u = (.ok (.ok (x, e)), v)) (hu : u.registry.WellFormed)
    (ht : t.registry.WellFormed) (hle : v.Within t) (hlhs : lhs.SingleCells)
    (hrhs : rhs.SingleCells) : t.Denotes lhs x ∧ t.LowersTo rhs e := by
  obtain ⟨hx, e', he', heq⟩ :=
    lowered_lowers h hu ht hle hlhs.singleIndices hrhs.singleIndices
  rw [heq hrhs]
  exact ⟨hx, he'⟩

theorem within_addLogical {x : Symbol} {e : Expr} {l : Option Location} {o : Option State}
    (hu : u.registry.WellFormed) (h : u.addLogical x e l = .ok o) : u.Within (o.getD u) := by
  cases o with
  | none => exact .refl u
  | some v => exact (grows_addLogical (K := fun _ => True) hu h).within

theorem within_addStochastic {x : Symbol} {g : Generator} {l : Option Location} {o : Option State}
    (hu : u.registry.WellFormed) (h : u.addStochastic x g l = .ok o) : u.Within (o.getD u) := by
  cases o with
  | none => exact .refl u
  | some v => exact (grows_addStochastic (K := fun _ => True) hu h).within

/-- What is lowered is lowered in a state whose registry is well-formed. -/
theorem wellFormed_of_lowered {lhs rhs : Expr} {l : Option Location}
    {r : Except Fault (Symbol × Expr)} (h : lowered lhs rhs l u = (.ok r, v))
    (hu : u.registry.WellFormed) : v.registry.WellFormed :=
  ((lowered_refers Definitions.grows_any Definitions.grows_any l).of_eq h hu).1.wellFormed

variable {ss : List Stmt} {st : Stmt} {a : Absorption} {p : Expr → Prop}

/-- Absorbing a logical definition changes no stochastic rule. -/
theorem stochastic_of_absorbLogical (h : PlateModel.absorbLogical st u = (.ok a, v)) :
    v.stochastic = u.stochastic := by
  cases st with
  | assign lhs rhs l =>
    rcases absorbLogical_assign.1 h with
      ⟨why, hlowered, rfl⟩ | ⟨x, e, u', o, hlowered, ho, rfl, rfl⟩
    · obtain ⟨-, r, rfl, -⟩ := lowered_eq_unresolved hlowered
      rfl
    · obtain ⟨_, _, r, _, _, _, _, rfl⟩ := lowered_eq_ok.1 hlowered
      rcases State.addLogical_eq_ok.1 ho with
        ⟨-, ⟨_, _, _, rfl⟩ | ⟨_, _, _, _, rfl⟩ | ⟨-, -, rfl⟩⟩ <;> rfl
  | _ => cases h; rfl

/-- A logical rule that absorbing adds is what the right-hand side has been lowered to. -/
theorem rule_of_absorbLogical (h : PlateModel.absorbLogical st u = (.ok a, v))
    (hu : u.registry.WellFormed) {k : String} {e : Expr} (hk : v.logical.get? k = some e) :
    u.logical.get? k = some e ∨ ∃ lhs rhs l x w, st = .assign lhs rhs l ∧
      Resolution.isLeft (st, a) = false ∧ x.name = k ∧
      lowered lhs rhs l u = (.ok (.ok (x, e)), w) ∧ w.Within v := by
  cases st with
  | assign lhs rhs l =>
    rcases absorbLogical_assign.1 h with
      ⟨why, hlowered, rfl⟩ | ⟨x, e', w, o, hlowered, ho, rfl, rfl⟩
    · rw [lowered_keepsRules hlowered] at hk
      exact .inl hk
    · have hwithin := within_addLogical (wellFormed_of_lowered hlowered hu) ho
      rw [← lowered_keepsRules hlowered]
      rcases State.addLogical_eq_ok.1 ho with ⟨-, ⟨_, _, _, rfl⟩ | ⟨_, _, _, _, rfl⟩ | ⟨-, -, rfl⟩⟩
      · exact .inl hk
      · exact .inl hk
      · rw [Option.getD_some, Assoc.get?_put] at hk
        split at hk
        · next hkx =>
          cases hk
          exact .inr ⟨lhs, rhs, l, x, w, rfl, rfl, hkx.symm, hlowered, hwithin⟩
        · exact .inl hk
  | _ => cases h; exact .inl hk

/-- A logical rule that is added comes from the definition that is absorbed. -/
theorem Sourced.absorbLogical (h : absorbLogical st u = (.ok a, v))
    (ha : Resolution.isLeft (st, a) = false → st ∈ ss) (hu : u.registry.WellFormed)
    (ht : t.registry.WellFormed) (hle : v.Within t) (hst : st.Every p Expr.SingleCells)
    (hP : t.Sourced ss u) : t.Sourced ss v where
  logical hk := by
    rcases rule_of_absorbLogical h hu hk with hk | ⟨lhs, rhs, l, x, w, rfl, hleft, hx, he, hw⟩
    · exact hP.logical hk
    · obtain ⟨hdenotes, he⟩ := lowers_of_lowered he hu ht (hw.trans hle) hst.1 hst.2
      exact ⟨lhs, rhs, l, x, ha hleft, hdenotes, hx, he⟩
  stochastic hk := hP.stochastic (stochastic_of_absorbLogical h ▸ hk)

/-- A stochastic rule that is added comes from the definition that is absorbed. -/
theorem Sourced.absorbStochastic (h : absorbStochastic st u = (.ok a, v))
    (ha : Resolution.isLeft (st, a) = false → st ∈ ss) (hu : u.registry.WellFormed)
    (ht : t.registry.WellFormed) (hle : v.Within t) (hst : st.Every p Expr.SingleCells)
    (hP : t.Sourced ss u) : t.Sourced ss v := by
  cases st with
  | sample lhs rhs l =>
    rcases (absorbStochastic_sample.1 h).2 with
      ⟨why, hlowered, rfl⟩ | ⟨x, e, u', g, o, hlowered, hg, ho, rfl, rfl⟩
    · obtain ⟨-, r, rfl, -⟩ := lowered_eq_unresolved hlowered
      exact hP.withRegistry
    · have hwithin := within_addStochastic (wellFormed_of_lowered hlowered hu) ho
      obtain ⟨hx, he⟩ := lowers_of_lowered hlowered hu ht (hwithin.trans hle) hst.1 hst.2
      obtain ⟨_, _, r, _, _, _, _, rfl⟩ := lowered_eq_ok.1 hlowered
      rcases State.addStochastic_eq_ok.1 ho with ⟨-, ⟨_, _, _, rfl⟩ | ⟨-, rfl⟩⟩
      · exact hP.withRegistry
      · refine ⟨hP.logical, fun {k g'} hk => ?_⟩
        rw [Option.getD_some, Assoc.get?_put] at hk
        split at hk
        · next hkx =>
          cases hk
          exact ⟨lhs, rhs, l, x, e, ha rfl, hx, hkx.symm, he, hg⟩
        · exact hP.stochastic hk
  | _ => cases h; exact hP

/-! ## Distinct definitions -/

/-- A definition is of a symbol. -/
def IsOf (t : State) (x : Symbol) : Stmt → Prop
  | .assign lhs _ _ | .sample lhs _ _ => t.Denotes lhs x
  | _ => False

/-- Two definitions are of different symbols; the rules of a state go by their names. -/
def Differ (t : State) (a b : Stmt) : Prop :=
  ∀ ⦃x y⦄, t.IsOf x a → t.IsOf y b → x.name ≠ y.name

instance (t : State) : Std.Symm t.Differ where
  symm _ _ h _ _ hx hy heq := h hy hx heq.symm

/-- No two of some definitions are of the same symbol. -/
def Distinct (t : State) (flats : List Stmt) : Prop := flats.Pairwise t.Differ

theorem Distinct.eq {flats : List Stmt} (h : t.Distinct flats) {a b : Stmt} (ha : a ∈ flats)
    (hb : b ∈ flats) {x y : Symbol} (hx : t.IsOf x a) (hy : t.IsOf y b) (hname : x.name = y.name) :
    a = b := by
  by_contra hne
  exact List.Pairwise.forall h ha hb hne hx hy hname

theorem Distinct.perm {flats flats' : List Stmt} (h : t.Distinct flats) (hp : flats.Perm flats') :
    t.Distinct flats' := (hp.pairwise_iff (Std.Symm.symm _ _)).1 h

variable {flats : List Stmt} {lhs rhs e : Expr} {l : Option Location} {x : Symbol}

/-- What is defined as logical has no rule but that of its definition. -/
theorem Sourced.of_assign (ht : t.Sourced flats t) (hdistinct : t.Distinct flats)
    (hst : .assign lhs rhs l ∈ flats) (hx : t.Denotes lhs x) (he : t.LowersTo rhs e) :
    (∀ rule, t.logical.get? x.name = some rule → rule = e) ∧
      t.stochastic.contains x.name = false := by
  constructor
  · intro rule hrule
    obtain ⟨lhs', rhs', l', y, hst', hy, hname, hrule⟩ := ht.logical hrule
    cases hdistinct.eq hst' hst hy hx hname
    exact hrule.unique he
  · refine Assoc.contains_eq_false_iff.2 fun g hg => ?_
    obtain ⟨lhs', rhs', l', y, -, hst', hy, hname, -⟩ := ht.stochastic hg
    cases hdistinct.eq hst' hst hy hx hname

/-- What is defined as stochastic has no rule but that of its definition. -/
theorem Sourced.of_sample (ht : t.Sourced flats t) (hdistinct : t.Distinct flats)
    (hst : .sample lhs rhs l ∈ flats) (hx : t.Denotes lhs x) (he : t.LowersTo rhs e) :
    (∀ g, t.stochastic.get? x.name = some g → Generator.ofExpr e = .ok g) ∧
      t.logical.contains x.name = false := by
  constructor
  · intro g hg
    obtain ⟨lhs', rhs', l', y, e', hst', hy, hname, he', hofExpr⟩ := ht.stochastic hg
    cases hdistinct.eq hst' hst hy hx hname
    rwa [he'.unique he] at hofExpr
  · refine Assoc.contains_eq_false_iff.2 fun rule hrule => ?_
    obtain ⟨lhs', rhs', l', y, hst', hy, hname, -⟩ := ht.logical hrule
    cases hdistinct.eq hst' hst hy hx hname

/-- A name on the left of what is absorbed is that of no array. -/
theorem contains_eq_false_of_absorbs {n : String} {new : Bool} (h : Absorbs st u (.absorbed new) v)
    (hst : st.IsDefinition (.name n) rhs l) : u.registry.contains n = false := by
  cases h with
  | absorbed hdefinition hlowered =>
    obtain ⟨_, _, _, _, _, hname, _, _⟩ := lowered_eq_ok.1 hlowered
    refine hname n ?_
    rcases hst with rfl | rfl <;> rcases hdefinition with heq | heq <;> cases heq <;> rfl

/-- A definition that has been absorbed is settled, if no other is of its symbol and no array has
got its name. -/
theorem settles_of_absorbed (h : AbsorbedBetween s t st) (ht : t.registry.WellFormed)
    (hst : st.Every Expr.SingleCells Expr.SingleCells) (hsourced : t.Sourced flats t)
    (hdistinct : t.Distinct flats) (hmem : st ∈ flats)
    (hname : ∀ {n rhs l}, st.IsDefinition (.name n) rhs l → s.registry.contains n = false →
      t.registry.contains n = false) : t.Settles st := by
  have bare {u v : State} {new : Bool} (hu : s.Within u) (h : Absorbs st u (.absorbed new) v)
      {n : String} {rhs : Expr} {l : Option Location} (hst : st.IsDefinition (.name n) rhs l) :
      t.registry.contains n = false :=
    hname hst (hu.registry.contains_eq_false (contains_eq_false_of_absorbs h hst))
  have hindices : st.Every Expr.SingleCells Expr.SingleIndices :=
    hst.singleIndices
  obtain ⟨new, ⟨u, v, hu, h, huv, hv⟩ | ⟨u, v, hu, h, huv, hv⟩⟩ := h
  · have habsorbs := absorbLogical_absorbs h
    obtain ⟨lhs, rhs, l, x, e, e', hdefinition, hx, he, heq, hrecords⟩ :=
      habsorbs.lowers hu.registry.wellFormed ht huv.within hv.within hindices
    rcases hdefinition with rfl | rfl
    · obtain rfl := heq hst.2
      obtain ⟨hrule, hstochastic⟩ := hsourced.of_assign hdistinct hmem hx he
      refine ⟨x, e, hx, he, fun n hn => bare hu.within habsorbs (.inl (by rw [hn])),
        hstochastic, ?_⟩
      refine hrecords.imp_right fun ⟨hd, rule, hget, _⟩ => ⟨hd, ?_⟩
      rw [hget, hrule rule hget]
    · cases h
  · have habsorbs := absorbStochastic_absorbs h
    obtain ⟨lhs, rhs, l, x, e, e', hdefinition, hx, he, heq, hrecords⟩ :=
      habsorbs.lowers hu.registry.wellFormed ht huv.within hv.within hindices
    rcases hdefinition with rfl | rfl
    · cases h
    · obtain rfl := heq hst.2
      obtain ⟨hrule, hlogical⟩ := hsourced.of_sample hdistinct hmem hx he
      obtain ⟨g, hg, -⟩ := hrecords
      exact ⟨(absorbStochastic_sample.1 h).1, x, e, g, hx, he,
        fun n hn => bare hu.within habsorbs (.inr (by rw [hn])), hlogical, hrule g hg, hg⟩

end State

/-! ## Names apart -/

/-- The arrays of an expression are in `K`, and it is not the name of one itself. -/
def Expr.Apart (K : String → Prop) (e : Expr) : Prop :=
  Definitions.RefersIn K e.references ∧ ∀ n, e = .name n → ¬ K n

theorem stable_apart {K : String → Prop} : Stable (Expr.Apart K) := by
  intro m e hm h
  refine ⟨h.1.substitute hm, fun n hn => ?_⟩
  cases e with
  | name x =>
    rcases Expr.substitute_name hm x with h' | ⟨v, k, h'⟩
    · exact h.2 n (h'.symm.trans hn)
    · cases h'.symm.trans hn
  | _ => cases hn

/-- In some statements no name is used both bare and as that of an array. -/
def Stmt.NamesApart (ss : List Stmt) : Prop :=
  ∃ K, Stmt.EveryOfAll (Expr.Apart K) (Expr.Apart K) ss

/-! ## Resolution -/

open Resolution (Rounds)

section Resolve

variable {w w' : Resolution} {ss : List Stmt} {p q : Program} {tally : Tally} {flats : List Stmt}

/-- What a run adds comes from what it absorbs. -/
theorem Resolution.Rounds.sourced (h : Rounds w s w' s') (hs : s.registry.WellFormed)
    (ht : t.registry.WellFormed) (hle : s'.Within t)
    (hw : Stmt.EveryOfAll Expr.SingleCells Expr.SingleCells w.remaining) (hss : w'.absorbed ⊆ ss)
    (hP : t.Sourced ss s) : t.Sourced ss s' := by
  refine (h.invariant (motive := fun w s => Stmt.EveryOfAll Expr.SingleCells Expr.SingleCells
    w.remaining ∧ t.Sourced ss s) hs hle ?_ ⟨hw, hP⟩).2
  rintro v v' n u u' hstep hu hu' hsubset ⟨hv, hP⟩
  refine ⟨hstep.every stable_singleCells stable_singleCells hv, ?_⟩
  refine hstep.preserves (fun _ _ hP => hP.withRegistry) ?_ hu hu' hP
  intro st a u v hst ha hu hv' habsorb hP
  exact hP.absorbLogical habsorb (fun hleft => hss (hsubset (ha hleft))) hu ht hv'
    (Stmt.everyOfAll_iff.1 hv st hst)

/-- Every rule that resolution returns comes from a definition that it has absorbed. -/
theorem sourced_of_resolve (hs : s.Seeded)
    (hp : Stmt.EveryOfAll Expr.SingleCells Expr.SingleCells p.statements)
    (h : p.resolve s = (.ok (q, tally), t)) : t.Sourced q.statements t := by
  have ht := (absorbed_of_resolve hs.wellFormed h).1.registry.wellFormed
  obtain ⟨w, u, results, hrounds, hresults, -, hq⟩ := Program.resolve_eq_ok h
  have hsu := hrounds.grows_any hs.wellFormed
  have hut := Resolution.grows_of_attempt Resolution.absorbStochastic_grows_any hresults
    hsu.registry.wellFormed
  have hfst := Resolution.attempt_fst absorbStochastic w _ _ _ hresults
  have hevery := hrounds.every stable_singleCells stable_singleCells hp
  refine Resolution.attempt_preserves Resolution.absorbStochastic_grows_any hresults
    (fun r hr {u v} hu hv h hP => ?_) hsu.registry.wellFormed (.refl t) ?_
  · refine hP.absorbStochastic h (fun hleft => ?_) hu ht hv
      (Stmt.everyOfAll_iff.1 hevery r.1 (hfst ▸ List.mem_map_of_mem hr))
    rw [hq]
    refine List.mem_append_right _ (List.mem_map_of_mem (List.mem_filter.2 ⟨hr, ?_⟩))
    simp [show Resolution.isLeft r = false from hleft]
  · refine hrounds.sourced hs.wellFormed ht hut.within hp ?_ (hs.sourced _)
    rw [hq]
    exact List.subset_append_left ..

/-- Resolution lets no arrays come into being but those that the program refers to. -/
theorem grows_of_resolve {K : String → Prop} (hs : s.registry.WellFormed)
    (hp : Stmt.RefersInAll K p.statements) (h : p.resolve s = (.ok (q, tally), t)) :
    s.Grows K t := by
  obtain ⟨w, u, results, hrounds, hresults, -, -⟩ := Program.resolve_eq_ok h
  have hsu := hrounds.grows hp hs
  have hw := hrounds.every stable_refersIn stable_refersIn hp
  refine hsu.trans ((Resolution.attempt_grows fun st hst => ?_).of_eq hresults
    hsu.registry.wellFormed)
  exact absorbStochastic_grows (Stmt.everyOfAll_iff.1 hw st hst)

/-- If resolution drops nothing and no two definitions are of the same symbol, then it settles the
whole expansion. -/
theorem settles_of_resolve (hs : s.Seeded)
    (hp : Stmt.EveryOfAll Expr.SingleCells Expr.SingleCells p.statements)
    (hnames : Stmt.NamesApart p.statements) (h : p.resolve s = (.ok (q, tally), t))
    (hflats : Expands t p.statements flats) (hperm : q.statements.Perm flats)
    (hdistinct : t.Distinct flats) : ∀ st ∈ flats, t.Settles st := by
  obtain ⟨K, hK⟩ := hnames
  obtain ⟨hst, habsorbed⟩ := absorbed_of_resolve hs.wellFormed h
  have hgrows : s.Grows K t :=
    grows_of_resolve hs.wellFormed (hK.imp (fun _ h => h.1) fun _ h => h.1) h
  have hsourced : t.Sourced flats t := (sourced_of_resolve hs hp h).mono hperm.subset
  intro st hst'
  refine State.settles_of_absorbed (habsorbed st (hperm.mem_iff.2 hst')) hst.registry.wellFormed
    (Stmt.everyOfAll_iff.1 (hflats.every stable_singleCells stable_singleCells hp) st hst')
    hsourced hdistinct hst' fun {n rhs l} hdefinition hn => ?_
  have hapart := Stmt.everyOfAll_iff.1 (hflats.every stable_apart stable_apart hK) st hst'
  have hnK : ¬ K n := by
    rcases hdefinition with rfl | rfl
    · exact hapart.1.2 n rfl
    · exact hapart.1.2 n rfl
  rwa [Registry.contains_eq_isSome, hgrows.registry.frame hnK, ← Registry.contains_eq_isSome]

end Resolve

end PlateModel
