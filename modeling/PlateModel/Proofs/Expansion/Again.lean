import PlateModel.Proofs.Expansion.Completeness
import PlateModel.Proofs.State.Edits

/-!
# Resolving once more

The definitions that resolution returns can be resolved again in the state that it has led to, or in
any later one. Every index comes to what it came to before, so nothing is unrolled, decided or
added, and the state stays as it is. Only what is checked of left-hand sides can come out
differently: a bare name may by now be that of an array, and a symbol whose logical definition the
data confirm may by now have a stochastic rule.

* `State.refusal`: why a state does not take a definition again.
* `absorbLogical_again`, `absorbStochastic_again`: a definition that the state records is refused,
  or it adds nothing.
* `Program.resolve_again`: the definitions that resolution returns, resolved once more.
-/

namespace PlateModel

open Compiling

/-! ## Refusals -/

namespace State

/-- Whether a left-hand side is the bare name of an array. -/
def isArrayName (t : State) : Expr → Bool
  | .name x => t.registry.contains x
  | _ => false

/-- The symbol that a left-hand side stands for. -/
def symbolOf? (t : State) (lhs : Expr) : Option Symbol :=
  (t.toDefinitions.symbolic lhs t.registry).1.toOption.bind symbol?

/-- Why a state that records a definition does not take it again: the array of that name, or the
stochastic rule of that symbol, has come later. -/
def refusal (t : State) : Stmt → Option Fault
  | .assign lhs _ l =>
    if t.isArrayName lhs then some (.model (.targetSlice lhs) l)
    else (t.symbolOf? lhs).bind fun x =>
      if t.stochastic.contains x.name then some (.model (.twoKinds x.name) l) else none
  | .sample lhs _ l => if t.isArrayName lhs then some (.model (.targetSlice lhs) l) else none
  | _ => none

theorem Denotes.symbolOf? {t : State} {lhs : Expr} {x : Symbol} (h : t.Denotes lhs x) :
    t.symbolOf? lhs = some x := by
  obtain ⟨y, hy, hx⟩ := h
  rw [State.symbolOf?, hy]
  exact hx

end State

section Again

variable {lhs rhs e : Expr} {l : Option Location} {t : State} {x : Symbol}

/-! ## One definition -/

theorem target_again (hx : t.Denotes lhs x) (l : Option Location) : target lhs l t =
    (if t.isArrayName lhs then .error (.model (.targetSlice lhs) l) else .ok x, t) := by
  obtain ⟨y, hy, hsymbol⟩ := hx
  have hrefer : refer (·.symbolic lhs) t = (.ok y, t) := refer_eq.2 ⟨_, hy, rfl⟩
  rw [target_of_isTarget (isTarget_of_symbolic hy), run_bind_of_ok hrefer]
  rcases y with x' | c | ⟨shape, cells⟩
  · obtain ⟨n, rfl, rfl, -⟩ := symbolic_eq_inl hy
    cases hsymbol
    rw [singleTarget_inl]
    show (if t.registry.contains n then _ else _) = (if t.registry.contains n then _ else _, t)
    split <;> rfl
  · cases hsymbol
    cases lhs with
    | name n => cases hy
    | _ => rfl
  · cases hsymbol

/-- Both sides of a definition come to the same again, unless its left-hand side is refused. -/
theorem lowered_again (hx : t.Denotes lhs x) (he : t.LowersTo rhs e) (l : Option Location) :
    lowered lhs rhs l t =
      (if t.isArrayName lhs then .error (.model (.targetSlice lhs) l) else .ok (.ok (x, e)),
        t) := by
  have htarget := target_again hx l
  unfold lowered
  cases hname : t.isArrayName lhs with
  | true =>
    rw [hname] at htarget
    exact unlessUnresolved_eq_error.2 ⟨run_bind_of_error htarget, rfl⟩
  | false =>
    rw [hname] at htarget
    have hlower : refer (·.lower rhs) t = (.ok e, t) := refer_eq.2 ⟨_, he, rfl⟩
    refine unlessUnresolved_eq_ok.2 ?_
    rw [run_bind_of_ok htarget, run_bind_of_ok hlower]
    rfl

/-- A logical definition that the state records adds nothing, or it is refused. -/
theorem absorbLogical_again (hx : t.Denotes lhs x) (he : t.LowersTo rhs e)
    (h : t.Records (.assign lhs rhs l) x e) : absorbLogical (.assign lhs rhs l) t =
      ((t.refusal (.assign lhs rhs l)).elim (.ok (.absorbed false)) .error, t) := by
  have hlowered := lowered_again hx he l
  rw [State.refusal, hx.symbolOf?, Option.bind_some]
  cases hname : t.isArrayName lhs with
  | true =>
    rw [hname] at hlowered
    exact run_bind_of_error hlowered
  | false =>
    rw [hname] at hlowered
    cases hkind : t.stochastic.contains x.name with
    | true =>
      have hadd : t.addLogical x e l = .error (.model (.twoKinds x.name) l) := by
        simp only [State.addLogical, hkind, if_true]
        rfl
      have hrule : (get >>= fun s => liftM (s.addLogical x e l) >>= absorb : Compiling _) t =
          (.error (.model (.twoKinds x.name) l), t) := by
        rw [run_bind_of_ok (run_get t), run_bind, run_lift, hadd]
      rw [absorbLogical, run_bind_of_ok hlowered]
      exact hrule
    | false =>
      have hadd : t.addLogical x e l = .ok none := by
        refine State.addLogical_eq_ok.2 ⟨hkind, ?_⟩
        rcases h with ⟨v, hv, hconfirms⟩ | ⟨hdata, rule, hrule, hsame⟩
        · exact .inl ⟨v, hv, hconfirms, rfl⟩
        · exact .inr (.inl ⟨hdata, rule, hrule, hsame, rfl⟩)
      exact absorbLogical_assign.2 (.inr ⟨x, e, t, none, hlowered, hadd, rfl, rfl⟩)

/-- A stochastic definition that the state records adds nothing, or it is refused. -/
theorem absorbStochastic_again {g : Generator} (ht : t.Consistent) (hx : t.Denotes lhs x)
    (he : t.LowersTo rhs e) (hcheck : checkDistribution rhs l = .ok ())
    (hg : Generator.ofExpr e = .ok g) (h : t.Records (.sample lhs rhs l) x e) :
    absorbStochastic (.sample lhs rhs l) t =
      ((t.refusal (.sample lhs rhs l)).elim (.ok (.absorbed false)) .error, t) := by
  have hlowered := lowered_again hx he l
  rw [State.refusal]
  cases hname : t.isArrayName lhs with
  | true =>
    rw [hname] at hlowered
    rw [absorbStochastic, run_bind, run_lift, hcheck]
    exact run_bind_of_error hlowered
  | false =>
    rw [hname] at hlowered
    obtain ⟨rule, hrule, hsame⟩ := h
    have hkind : t.logical.contains x.name = false := by
      refine Bool.not_eq_true _ ▸ fun hlogical => ?_
      have := ht.kinds hlogical
      rw [Assoc.contains_iff.2 ⟨rule, hrule⟩] at this
      cases this
    have hadd : t.addStochastic x g l = .ok none := by
      refine State.addStochastic_eq_ok.2 ⟨hkind, .inl ⟨rule, hrule, ?_, rfl⟩⟩
      rw [expression_of_ofExpr hg]
      exact hsame
    refine absorbStochastic_sample.2 ⟨hcheck, .inr ?_⟩
    exact ⟨x, e, t, g, none, hlowered, hg, hadd, rfl, rfl⟩

/-- A left-hand side that stands for a symbol lets no array grow. -/
theorem registerTarget_again {st : Stmt} (hst : st.IsDefinition lhs rhs l) (hx : t.Denotes lhs x) :
    registerTarget st t = (.ok (), t) := by
  obtain ⟨y, hy, -⟩ := hx
  have hrefer : unlessUnresolved (refer (·.symbolic lhs)) t = (.ok (.ok y), t) :=
    unlessUnresolved_eq_ok.2 (refer_eq.2 ⟨_, hy, rfl⟩)
  rcases hst with rfl | rfl
  all_goals
    cases lhs with
    | index => exact run_bind_of_ok hrefer
    | _ => rfl

end Again

/-! ## A list of definitions -/

section Steady

variable {α : Type} {ss : List Stmt} {t : State}

/-- Computations that leave the state as it is make a list that does, up to the first refusal. -/
theorem mapM_of_steady {f : Stmt → Compiling α} {g : Stmt → α} {r : Stmt → Option Fault} :
    ∀ {ss : List Stmt}, (∀ st ∈ ss, f st t = ((r st).elim (.ok (g st)) .error, t)) →
      ss.mapM f t = ((ss.findSome? r).elim (.ok (ss.map g)) .error, t)
  | [], _ => rfl
  | st :: ss, h => by
    have hst := h st (List.mem_cons_self ..)
    have hss := mapM_of_steady fun st' hst' => h st' (List.mem_cons_of_mem st hst')
    rw [List.mapM_cons, List.findSome?_cons]
    cases hr : r st with
    | some why =>
      rw [hr] at hst
      exact run_bind_of_error hst
    | none =>
      rw [hr] at hst
      rw [run_bind_of_ok hst, run_bind, hss]
      dsimp only
      cases ss.findSome? r <;> rfl

theorem forM_of_steady {f : Stmt → Compiling Unit} :
    ∀ {ss : List Stmt}, (∀ st ∈ ss, f st t = (.ok (), t)) → ss.forM f t = (.ok (), t)
  | [], _ => rfl
  | st :: ss, h => by
    have hss := forM_of_steady fun st' hst' => h st' (List.mem_cons_of_mem st hst')
    exact run_bind_eq_ok.2 ⟨(), t, h st (List.mem_cons_self ..), hss⟩

theorem unrollAll_of_flat : ∀ {ss : List Stmt}, (∀ st ∈ ss, st.isFlat) →
    unrollAll [] ss t = (.ok (ss, 0), t)
  | [], _ => rfl
  | st :: ss, h => by
    have hst : unroll [] st t = (.ok ([st], 0), t) := by
      have hflat := h st (List.mem_cons_self ..)
      have hself := st.substitute_nil
      cases st with
      | assign | sample =>
        exact congrArg
          (fun st => ((.ok ([st], 0), t) : Except Fault (List Stmt × Nat) × State)) hself
      | _ => cases hflat
    have hss := unrollAll_of_flat fun st' hst' => h st' (List.mem_cons_of_mem st hst')
    exact unrollAll_cons_eq_ok.2 ⟨[st], 0, t, ss, 0, hst, hss, rfl, rfl⟩

theorem decideAll_of_flat : ∀ {ss : List Stmt}, (∀ st ∈ ss, st.isFlat) →
    decideAll ss t = (.ok (ss, 0), t)
  | [], _ => rfl
  | st :: ss, h => by
    have hst : decideIn st t = (.ok ([st], 0), t) := by
      have hflat := h st (List.mem_cons_self ..)
      cases st with
      | assign | sample => rfl
      | _ => cases hflat
    have hss := decideAll_of_flat fun st' hst' => h st' (List.mem_cons_of_mem st hst')
    exact decideAll_cons_eq_ok.2 ⟨[st], 0, t, ss, 0, hst, hss, rfl, rfl⟩

namespace Resolution

variable {w : Resolution}

/-- Where only definitions are left, a round does nothing but absorb them. -/
theorem round_of_flat (h : ∀ st ∈ w.remaining, st.isFlat) (t : State) :
    w.round t = w.absorbDefinitions t := by
  have hunroll : w.unrollLoops t = (.ok (w, 0), t) :=
    unrollLoops_eq_ok.2 ⟨_, unrollAll_of_flat h, rfl⟩
  have hdecide : w.decideConditionals t = (.ok (w, 0), t) :=
    decideConditionals_eq_ok.2 ⟨_, decideAll_of_flat h, rfl⟩
  rw [round, run_bind_of_ok hunroll]
  dsimp only
  rw [if_neg (by simp), run_bind_of_ok hdecide]
  dsimp only
  rw [if_neg (by simp)]

/-- What becomes of some definitions that are all absorbed again, and of others that are skipped. -/
def settled (ss rest : List Stmt) : List (Stmt × Absorption) :=
  ss.map (·, .absorbed false) ++ rest.map (·, .skipped)

theorem zip_settled (ss rest : List Stmt) :
    (ss ++ rest).zip (ss.map (fun _ => .absorbed false) ++ rest.map fun _ => .skipped) =
      settled ss rest := by
  have hzip (a : Absorption) (ss : List Stmt) : ss.zip (ss.map fun _ => a) = ss.map (·, a) := by
    conv_lhs => rw [← List.map_id ss, List.map_map, List.zip_map']
    rfl
  rw [List.zip_append (by simp), hzip, hzip, settled]

theorem countP_settled (ss rest : List Stmt) : (settled ss rest).countP isNew = 0 := by
  refine List.countP_eq_zero.2 fun r hr => ?_
  rcases List.mem_append.1 hr with hr | hr
  all_goals
    obtain ⟨st, -, rfl⟩ := List.mem_map.1 hr
    simp [isNew]

theorem foldl_note_settled (ss rest : List Stmt) : (settled ss rest).foldl note [] = [] := by
  rw [settled, List.foldl_append]
  have habsorbed : (ss.map (·, Absorption.absorbed false)).foldl note [] = [] := by
    induction ss with
    | nil => rfl
    | cons st ss ih => exact ih
  rw [habsorbed]
  induction rest with
  | nil => rfl
  | cons st rest ih => exact ih

theorem record_settled (hw : w.postponed = []) (ss rest : List Stmt) :
    w.record (settled ss rest) = { w with remaining := rest, absorbed := w.absorbed ++ ss } := by
  have hleft : ((settled ss rest).filter isLeft).map (·.1) = rest := by
    simp [settled, List.filter_append, List.filter_map, Function.comp_def, isLeft]
  have habsorbed : ((settled ss rest).filter (!isLeft ·)).map (·.1) = ss := by
    simp [settled, List.filter_append, List.filter_map, Function.comp_def, isLeft]
  rw [record, hleft, habsorbed, hw, foldl_note_settled]

end Resolution

/-- A logical definition that is absorbed again, or refused. -/
structure AbsorbedAgain (t : State) (st : Stmt) : Prop where
  absorbs : absorbLogical st t = ((t.refusal st).elim (.ok (.absorbed false)) .error, t)
  registers : registerTarget st t = (.ok (), t)
  flat : st.isFlat

/-- A stochastic definition that is absorbed again, or refused. -/
structure SampledAgain (t : State) (st : Stmt) : Prop where
  skipped : absorbLogical st t = (.ok .skipped, t)
  absorbs : absorbStochastic st t = ((t.refusal st).elim (.ok (.absorbed false)) .error, t)
  registers : registerTarget st t = (.ok (), t)
  flat : st.isFlat

namespace Resolution

variable {w : Resolution} {as bs : List Stmt}

/-- Logical definitions that are absorbed again, then stochastic ones, in one round. -/
theorem run_again (hw : w.remaining = as ++ bs) (hpostponed : w.postponed = [])
    (has : ∀ st ∈ as, AbsorbedAgain t st) (hbs : ∀ st ∈ bs, SampledAgain t st) :
    w.run t = ((as.findSome? t.refusal).elim
      (.ok { w with remaining := bs, absorbed := w.absorbed ++ as }) .error, t) := by
  have hflat : ∀ st ∈ w.remaining, st.isFlat := fun st hst => by
    rw [hw] at hst
    exact (List.mem_append.1 hst).elim (fun h => (has st h).flat) fun h => (hbs st h).flat
  have hregisters : w.remaining.forM registerTarget t = (.ok (), t) :=
    forM_of_steady fun st hst => by
      rw [hw] at hst
      exact (List.mem_append.1 hst).elim (fun h => (has st h).registers)
        fun h => (hbs st h).registers
  have habsorbed := mapM_of_steady (f := absorbLogical) (g := fun _ => .absorbed false)
    fun st hst => (has st hst).absorbs
  have hskipped : bs.mapM absorbLogical t = (.ok (bs.map fun _ => .skipped), t) := by
    have hsteady := mapM_of_steady (f := absorbLogical) (g := fun _ => .skipped)
      (r := fun _ => none) fun st hst => (hbs st hst).skipped
    rwa [List.findSome?_eq_none_iff.2 fun _ _ => rfl] at hsteady
  cases hrefusal : as.findSome? t.refusal with
  | some why =>
    rw [hrefusal] at habsorbed
    have hattempt : w.attempt absorbLogical t = (.error why, t) := by
      rw [attempt, hw, List.mapM_append]
      exact run_bind_of_error (run_bind_of_error habsorbed)
    refine run_of_round_error ?_
    rw [round_of_flat hflat, absorbDefinitions, run_bind_of_ok hregisters]
    exact run_bind_of_error hattempt
  | none =>
    rw [hrefusal] at habsorbed
    have hattempt : w.attempt absorbLogical t = (.ok (settled as bs), t) := by
      refine attempt_eq_ok.2
        ⟨as.map (fun _ => .absorbed false) ++ bs.map fun _ => .skipped, ?_, ?_⟩
      · rw [hw, List.mapM_append, run_bind_of_ok habsorbed, run_bind_of_ok hskipped]
        rfl
      · rw [hw, zip_settled]
    have hround : w.round t =
        (.ok ({ w with remaining := bs, absorbed := w.absorbed ++ as }, 0), t) := by
      rw [round_of_flat hflat]
      refine absorbDefinitions_eq_ok.2 ⟨t, _, hregisters, hattempt, (countP_settled as bs).symm, ?_⟩
      rw [record_settled rfl, hpostponed]
      rfl
    exact run_of_round hround

end Resolution

/-- Definitions that a state records, the logical ones first, are resolved to themselves, or the
first that is refused ends the resolution. The state stays as it is. -/
theorem Program.resolve_of_recorded {p : Program} {as bs : List Stmt} (hp : p.statements = as ++ bs)
    (has : ∀ st ∈ as, AbsorbedAgain t st) (hbs : ∀ st ∈ bs, SampledAgain t st) : p.resolve t =
      ((p.statements.findSome? t.refusal).elim (.ok (p, ⟨0, 0, 0, 0⟩)) .error, t) := by
  have hrun : (Resolution.start p.statements).run t =
      ((as.findSome? t.refusal).elim (.ok ⟨bs, as, [], ⟨0, 0, 0, 0⟩⟩) .error, t) :=
    Resolution.run_again hp rfl has hbs
  rw [hp, List.findSome?_append, resolve]
  cases hrefusal : as.findSome? t.refusal with
  | some why =>
    rw [hrefusal] at hrun
    exact run_bind_of_error hrun
  | none =>
    rw [hrefusal] at hrun
    have habsorbed := mapM_of_steady (f := absorbStochastic) (g := fun _ => .absorbed false)
      fun st hst => (hbs st hst).absorbs
    rw [run_bind_of_ok hrun, Option.none_or]
    cases hrefusal' : bs.findSome? t.refusal with
    | some why =>
      rw [hrefusal'] at habsorbed
      exact run_bind_of_error (run_bind_of_error habsorbed)
    | none =>
      rw [hrefusal'] at habsorbed
      have hattempt : Resolution.attempt absorbStochastic ⟨bs, as, [], ⟨0, 0, 0, 0⟩⟩ t =
          (.ok (Resolution.settled bs []), t) := by
        refine Resolution.attempt_eq_ok.2 ⟨_, habsorbed, ?_⟩
        have hzip := Resolution.zip_settled bs []
        rw [List.append_nil, List.map_nil, List.append_nil] at hzip
        exact hzip.symm
      have hrecord : Resolution.record ⟨bs, as, [], ⟨0, 0, 0, 0⟩⟩ (Resolution.settled bs []) =
          ⟨[], as ++ bs, [], ⟨0, 0, 0, 0⟩⟩ := Resolution.record_settled rfl bs []
      rw [Option.elim_none, run_bind_of_ok hattempt, hrecord, Resolution.countP_settled, ← hp]
      rfl

end Steady

/-! ## What resolution returns -/

section Resolve

variable {s t T : State} {st : Stmt} {new : Bool}

open Resolution (Between)

/-- What has been absorbed is lowered to the same in every later state, which records it. -/
theorem Absorbs.again {u v : State} (h : Absorbs st u (.absorbed new) v)
    (hu : u.registry.WellFormed) (hT : T.registry.WellFormed) (huv : u.Within v) (hle : v.Within T)
    (hst : st.Every Expr.SingleCells Expr.SingleCells) : ∃ lhs rhs l x e w,
      st.IsDefinition lhs rhs l ∧ lowered lhs rhs l u = (.ok (.ok (x, e)), w) ∧
      T.Denotes lhs x ∧ T.LowersTo rhs e ∧ T.Records st x e := by
  cases h with
  | @absorbed lhs rhs e l x w _ _ hdefinition hlowered hregistry hrecords =>
    have hw := (lowered_refers (K := fun _ => True) Definitions.grows_any Definitions.grows_any
      l).of_eq hlowered hu
    have hwT : w.Within T := by
      have huT := huv.trans hle
      rw [hw.2]
      exact ⟨huT.rules, hregistry ▸ hle.registry, huT.stochastic⟩
    have hsides : lhs.SingleCells ∧ rhs.SingleCells := by
      rcases hdefinition with rfl | rfl
      · exact hst
      · exact hst
    obtain ⟨hx, e', he', heq⟩ := lowered_lowers hlowered hu hT hwT hsides.1.singleIndices
      hsides.2.singleIndices
    obtain rfl := heq hsides.2
    exact ⟨lhs, rhs, l, x, e, w, hdefinition, hlowered, hx, he', hrecords.mono hle⟩

theorem Resolution.Between.absorbedAgain (h : Between absorbLogical s t st (.absorbed new))
    (hT : T.registry.WellFormed) (hle : t.Within T)
    (hst : st.Every Expr.SingleCells Expr.SingleCells) : AbsorbedAgain T st := by
  obtain ⟨u, v, hu, habsorbs, huv, hv⟩ := h
  obtain ⟨lhs, rhs, l, x, e, w, rfl | rfl, -, hx, he, hrecords⟩ :=
    (absorbLogical_absorbs habsorbs).again hu.registry.wellFormed hT huv.within
      (hv.within.trans hle) hst
  · exact ⟨absorbLogical_again hx he hrecords, registerTarget_again (.inl rfl) hx, rfl⟩
  · cases habsorbs

theorem Resolution.Between.sampledAgain (h : Between absorbStochastic s t st (.absorbed new))
    (hT : T.registry.WellFormed) (hconsistent : T.Consistent) (hle : t.Within T)
    (hst : st.Every Expr.SingleCells Expr.SingleCells) : SampledAgain T st := by
  obtain ⟨u, v, hu, habsorbs, huv, hv⟩ := h
  obtain ⟨lhs, rhs, l, x, e, w, rfl | rfl, hlowered, hx, he, hrecords⟩ :=
    (absorbStochastic_absorbs habsorbs).again hu.registry.wellFormed hT huv.within
      (hv.within.trans hle) hst
  · cases habsorbs
  · obtain ⟨hcheck, ⟨why, -, h⟩ | ⟨x', e', w', g, o, hlowered', hg, -⟩⟩ :=
      absorbStochastic_sample.1 habsorbs
    · cases h
    · cases hlowered.symm.trans hlowered'
      exact ⟨rfl, absorbStochastic_again hconsistent hx he hcheck hg hrecords,
        registerTarget_again (.inr rfl) hx, rfl⟩

/-- What resolution returns is resolved to itself in every later state, and nothing is done for
that, or its first definition that is refused ends the resolution. The state stays as it is. -/
theorem Program.resolve_again {p q : Program} {tally : Tally} (hs : s.registry.WellFormed)
    (hp : Stmt.EveryOfAll Expr.SingleCells Expr.SingleCells p.statements)
    (h : p.resolve s = (.ok (q, tally), t)) (hT : T.registry.WellFormed)
    (hconsistent : T.Consistent) (hle : t.Within T) : q.resolve T =
      ((q.statements.findSome? T.refusal).elim (.ok (q, ⟨0, 0, 0, 0⟩)) .error, T) := by
  obtain ⟨w, u, results, hrounds, hresults, hdone, hq⟩ := Program.resolve_eq_ok h
  have hsu := hrounds.grows_any hs
  have hut := Resolution.grows_of_attempt Resolution.absorbStochastic_grows_any hresults
    hsu.registry.wellFormed
  obtain ⟨flats, hflats, hperm⟩ := hrounds.expands hresults hs hp.singleIndices
    (Resolution.checkDone_eq_ok.1 hdone).1
  rw [← hq] at hperm
  have hevery (st : Stmt) (hst : st ∈ q.statements) :
      st.Every Expr.SingleCells Expr.SingleCells :=
    Stmt.everyOfAll_iff.1 (hflats.every stable_singleCells stable_singleCells hp) st
      (hperm.mem_iff.2 (List.mem_append_left _ hst))
  refine Program.resolve_of_recorded hq (fun st hst => ?_) fun st hst => ?_
  · have hst' := hevery st (by rw [hq]; exact List.mem_append_left _ hst)
    rcases hrounds.absorbed hs st hst with hst | ⟨new, hst⟩
    · cases hst
    · exact hst.absorbedAgain hT (hut.within.trans hle) hst'
  · have hst' := hevery st (by rw [hq]; exact List.mem_append_right _ hst)
    obtain ⟨⟨st, a⟩, hr, rfl⟩ := List.mem_map.1 hst
    obtain ⟨hr, hleft⟩ := List.mem_filter.1 hr
    have hbetween := Resolution.between_of_attempt Resolution.absorbStochastic_grows_any hresults
      hsu.registry.wellFormed _ hr
    cases a with
    | absorbed new => exact hbetween.sampledAgain hT hconsistent hle hst'
    | _ => cases hleft

end Resolve

end PlateModel
