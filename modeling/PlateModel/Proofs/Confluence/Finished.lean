import PlateModel.Proofs.Expansion.Absorption
import PlateModel.Proofs.Expansion.Decisions
import PlateModel.Proofs.Resolution.Follow

/-!
# On the way to a finished state

Suppose a state is finished: it holds what some definitions say. A computation that starts in a
state whose rules and arrays are among those of the finished one cannot fail at these definitions,
at loops that have bounds in the finished state, or at conditionals that have a truth value there.
It leaves them for later, or does with them what the finished state says; either way it does not get
beyond the finished state.

* `State.Inside`: a state on the way to the finished one.
* `State.Settles`: the finished state holds exactly what a definition says.
* `Stays`: a computation returns, and stays on the way.
* `loopBounds_stays`, `guardValue_stays`, `registerTarget_stays`, `absorbLogical_stays`,
  `absorbStochastic_stays`: the parts of resolution do.
-/

namespace PlateModel

open Compiling

/-! ## States on the way -/

namespace State

/-- A state is on the way to a finished one. -/
structure Inside (t u : State) : Prop where
  within : u.Within t
  wellFormed : u.registry.WellFormed
  keys : u.logical.keys.Nodup

/-- Another registry on the way. -/
theorem Inside.withRegistry {t u : State} (h : t.Inside u) {r : Registry} (hr : r.WellFormed)
    (hle : r.Within t.registry) : t.Inside { u with registry := r } :=
  ⟨⟨h.within.rules, hle, h.within.stochastic⟩, hr, h.keys⟩

/-- A state holds exactly what a definition says, and nothing else of the same symbol. -/
def Settles (t : State) : Stmt → Prop
  | .assign lhs rhs _ => ∃ x e, t.Denotes lhs x ∧ t.LowersTo rhs e ∧
      (∀ n, lhs = .name n → t.registry.contains n = false) ∧
      t.stochastic.contains x.name = false ∧
      ((∃ v, t.data.get? x.name = some v ∧ confirms v e) ∨
        (t.data.get? x.name = none ∧ t.logical.get? x.name = some e))
  | .sample lhs rhs l => checkDistribution rhs l = .ok () ∧ ∃ x e g, t.Denotes lhs x ∧
      t.LowersTo rhs e ∧ (∀ n, lhs = .name n → t.registry.contains n = false) ∧
      t.logical.contains x.name = false ∧ Generator.ofExpr e = .ok g ∧
      t.stochastic.get? x.name = some g
  | _ => False

theorem Settles.lowers {t : State} : ∀ {st : Stmt}, t.Settles st → t.Lowers st
  | .assign .., ⟨x, e, hx, he, _⟩ => ⟨⟨x, hx⟩, e, he⟩
  | .sample .., ⟨_, x, e, _, hx, he, _⟩ => ⟨⟨x, hx⟩, e, he⟩

end State

/-! ## Computations on the way -/

/-- On the way to a finished state a computation returns, and stays on the way. -/
def Stays {α : Type} (t : State) (m : Compiling α) (Q : α → Prop) : Prop :=
  ∀ ⦃u⦄, t.Inside u → ∃ a v, m u = (.ok a, v) ∧ t.Inside v ∧ Q a

namespace Stays

variable {t : State} {α β : Type} {m : Compiling α} {P : α → Prop} {Q : β → Prop}

theorem pure {a : α} (h : P a) : Stays t (Pure.pure a) P := fun u hu => ⟨a, u, rfl, hu, h⟩

theorem bind {f : α → Compiling β} (hm : Stays t m P) (hf : ∀ a, P a → Stays t (f a) Q) :
    Stays t (m >>= f) Q := by
  intro u hu
  obtain ⟨a, v, ha, hv, hP⟩ := hm hu
  obtain ⟨b, w, hb, hw, hQ⟩ := hf a hP hv
  exact ⟨b, w, (run_bind_of_ok ha).trans hb, hw, hQ⟩

theorem mapM {f : α → Compiling β} : ∀ {xs : List α},
    (∀ a ∈ xs, Stays t (f a) fun _ => True) → Stays t (xs.mapM f) fun _ => True
  | [], _ => by rw [List.mapM_nil]; exact .pure trivial
  | x :: xs, hf => by
    rw [List.mapM_cons]
    refine (hf x (List.mem_cons_self ..)).bind fun _ _ => ?_
    exact (mapM fun a ha => hf a (List.mem_cons_of_mem x ha)).bind fun _ _ => .pure trivial

theorem forM {f : α → Compiling PUnit} : ∀ {xs : List α},
    (∀ a ∈ xs, Stays t (f a) fun _ => True) → Stays t (xs.forM f) fun _ => True
  | [], _ => .pure trivial
  | x :: _, hf => (hf x (List.mem_cons_self ..)).bind fun _ _ =>
      forM fun a ha => hf a (List.mem_cons_of_mem x ha)

/-- What refers to arrays decides something about them, or leaves it for later. -/
theorem refer {f : Definitions → Referring α} {P : α → Prop}
    (h : ∀ {d}, d.Within t.toDefinitions → Decides t.registry (f d) P) :
    Stays t (unlessUnresolved (Compiling.refer f)) fun x =>
      (∃ a, x = .ok a ∧ P a) ∨ ∃ e, x = .error e := by
  intro u hu
  obtain ⟨x, r, hx, hr, hle, hresult⟩ := h hu.within.rules hu.wellFormed hu.within.registry
  have hrefer : Compiling.refer f u = (x, { u with registry := r }) := refer_eq.2 ⟨r, hx, rfl⟩
  have hinside := hu.withRegistry hr hle
  rcases hresult with ⟨a, rfl, ha⟩ | ⟨e, rfl, he⟩
  · exact ⟨_, _, unlessUnresolved_eq_ok.2 hrefer, hinside, .inl ⟨a, rfl, ha⟩⟩
  · exact ⟨_, _, unlessUnresolved_eq_unresolved.2 ⟨hrefer, he⟩, hinside, .inr ⟨e, rfl⟩⟩

end Stays

variable {t : State}

/-! ## Bounds, guards and left-hand sides -/

open Definitions (resolve_decides symbolic_follows lower_follows)

/-- A loop that has bounds in the end has none yet, or these. -/
theorem loopBounds_stays (ht : t.registry.WellFormed) {lower upper : Expr} {a b : Int}
    (ha : t.Bound lower a) (hb : t.Bound upper b) (hlower : lower.SingleCells)
    (hupper : upper.SingleCells) (l : Option Location) :
    Stays t (loopBounds lower upper l) fun o => o = none ∨ o = some (a, b) := by
  obtain ⟨v, hv, ha⟩ := ha
  obtain ⟨w, hw, hb⟩ := hb
  unfold loopBounds
  refine Stays.bind (Stays.refer (P := fun o => (∀ c, o.1 = .constant c → c = .number v) ∧
    ∀ c, o.2 = .constant c → c = .number w) fun h => ?_) ?_
  · refine (resolve_decides h ht hlower hv).bind fun o ho => ?_
    exact (resolve_decides h ht hupper hw).bind fun o' ho' => .pure ⟨ho, ho'⟩
  · rintro _ (⟨⟨o, o'⟩, rfl, ho, ho'⟩ | ⟨e, rfl⟩)
    · dsimp only at ho ho' ⊢
      split
      · next v' w' hv' hw' =>
        obtain ⟨rfl, hvt⟩ := Outcome.bound?_eq_some.1 hv'
        obtain ⟨rfl, hwt⟩ := Outcome.bound?_eq_some.1 hw'
        cases ho _ rfl
        cases ho' _ rfl
        intro u hu
        refine ⟨some (a, b), u, run_bind_eq_ok.2 ⟨(a, b), u, ?_, rfl⟩, hu, .inr rfl⟩
        rw [run_lift, (integerBounds_eq_ok hvt hwt).2 ⟨ha, hb⟩]
      · exact .pure (.inl rfl)
    · exact .pure (.inl rfl)

/-- A conditional that has a truth value in the end has none yet, or this one. -/
theorem guardValue_stays (ht : t.registry.WellFormed) {condition : Expr} {b : Bool}
    (hb : t.Guard condition b) (hcondition : condition.SingleCells) (l : Option Location) :
    Stays t (guardValue condition l) fun o => o = none ∨ o = some b := by
  unfold guardValue
  refine Stays.bind (Stays.refer fun h => resolve_decides h ht hcondition hb) ?_
  rintro _ (⟨o, rfl, ho⟩ | ⟨e, rfl⟩)
  · dsimp only
    cases o with
    | constant c =>
      cases ho c rfl
      exact .pure (.inr rfl)
    | symbol | residual => exact .pure (.inl rfl)
  · exact .pure (.inl rfl)

/-- A left-hand side that stands for a symbol in the end can be registered. -/
theorem registerTarget_stays (ht : t.registry.WellFormed) {st : Stmt} {lhs rhs : Expr}
    {l : Option Location} {x : Symbol} (hst : st.IsDefinition lhs rhs l) (hx : t.Denotes lhs x)
    (hlhs : lhs.SingleCells) : Stays t (registerTarget st) fun _ => True := by
  obtain ⟨y, hy, -⟩ := hx
  have hregister : Stays t (do
      let _ ← unlessUnresolved (Compiling.refer (·.symbolic lhs))
      return ()) fun _ => True :=
    (Stays.refer fun h => symbolic_follows h ht hlhs hy).bind fun _ _ => .pure trivial
  cases lhs with
  | index => rcases hst with rfl | rfl <;> exact hregister
  | _ => rcases hst with rfl | rfl <;> exact .pure trivial

/-! ## Absorbing -/

theorem Registry.contains_eq_isSome (r : Registry) (x : String) :
    r.contains x = (r.shape? x).isSome := by
  rw [shape?, Option.isSome_map]
  rfl

/-- No earlier registry knows an array that the final one does not. -/
theorem Registry.Within.contains_eq_false {r R : Registry} (h : r.Within R) {array : String}
    (hR : R.contains array = false) : r.contains array = false := by
  rw [contains_eq_isSome] at hR ⊢
  cases hr : r.shape? array with
  | none => rfl
  | some s =>
    obtain ⟨s', hs', -⟩ := h hr
    rw [hs'] at hR
    cases hR

/-- A definition that is lowered in the end is lowered to the same before, or postponed. -/
theorem lowered_stays (ht : t.registry.WellFormed) {lhs rhs e : Expr} {x : Symbol}
    (hx : t.Denotes lhs x) (he : t.LowersTo rhs e)
    (hname : ∀ n, lhs = .name n → t.registry.contains n = false) (hlhs : lhs.SingleCells)
    (hrhs : rhs.SingleCells) (l : Option Location) :
    Stays t (lowered lhs rhs l) fun r => r = .ok (x, e) ∨ ∃ f, r = .error f := by
  intro u hu
  obtain ⟨y, hy, hsymbol⟩ := hx
  obtain ⟨y', r, hr, hwf, hle, ⟨_, rfl, rfl⟩ | ⟨f, rfl, hf⟩⟩ :=
    symbolic_follows hu.within.rules ht hlhs hy hu.wellFormed hu.within.registry
  · obtain ⟨e', r', hr', hwf', hle', ⟨_, rfl, rfl⟩ | ⟨f, rfl, hf⟩⟩ :=
      lower_follows hu.within.rules ht hrhs he hwf hle
    · refine ⟨.ok (x, _), _, lowered_eq_ok.2 ⟨_, r, r', hr, hsymbol, fun n hn => ?_, hr', rfl⟩,
        hu.withRegistry hwf' hle', .inl rfl⟩
      exact hu.within.registry.contains_eq_false (hname n hn)
    · refine ⟨.error f, { u with registry := r' }, ?_, hu.withRegistry hwf' hle', .inr ⟨f, rfl⟩⟩
      refine unlessUnresolved_eq_unresolved.2 ⟨run_bind_eq_error.2 (.inr ?_), hf⟩
      refine ⟨x, { u with registry := r }, target_eq_ok.2 ⟨_, r, hr, hsymbol, fun n hn => ?_, rfl⟩,
        run_bind_of_error (refer_eq.2 ⟨r', hr', rfl⟩)⟩
      exact hu.within.registry.contains_eq_false (hname n hn)
  · refine ⟨.error f, { u with registry := r }, ?_, hu.withRegistry hwf hle, .inr ⟨f, rfl⟩⟩
    refine unlessUnresolved_eq_unresolved.2 ⟨run_bind_of_error ?_, hf⟩
    rw [target_of_isTarget (isTarget_of_symbolic hy)]
    exact run_bind_of_error (refer_eq.2 ⟨r, hr, rfl⟩)

/-- What is put where the finished state holds it leads to a state on the way. -/
theorem State.Inside.putLogical {u : State} (hu : t.Inside u) {x : String} {e : Expr}
    (hx : t.logical.get? x = some e) : t.Inside { u with logical := u.logical.put x e } := by
  have hkeys : (u.logical.put x e).keys.Nodup := Assoc.nodup_put hu.keys
  have hput : ∀ {k v}, (u.logical.put x e).get? k = some v → t.logical.get? k = some v := by
    intro k v hk
    rw [Assoc.get?_put] at hk
    split at hk
    · next h => rw [h, hx, ← hk]
    · exact hu.within.rules.logical hk
  exact ⟨⟨⟨hu.within.rules.data_eq, hput, Assoc.size_le_of_get? hkeys hput⟩, hu.within.registry,
    hu.within.stochastic⟩, hu.wellFormed, hkeys⟩

/-- A logical definition that is settled in the end can be absorbed. -/
theorem absorbLogical_stays (ht : t.registry.WellFormed) {st : Stmt} (hst : t.Settles st)
    {p : Expr → Prop} (hsingle : st.Every p Expr.SingleCells) :
    Stays t (absorbLogical st) fun _ => True := by
  cases st with
  | assign lhs rhs l =>
    obtain ⟨x, e, hx, he, hname, hstochastic, hrule⟩ := hst
    intro u hu
    obtain ⟨result, v, hv, hinside, rfl | ⟨f, rfl⟩⟩ :=
      lowered_stays ht hx he hname hsingle.1 hsingle.2 l hu
    · have hfree : v.stochastic.contains x.name = false :=
        Assoc.contains_eq_false_of_get? (fun hg => hinside.within.stochastic hg) hstochastic
      have hdata := hinside.within.rules.data_eq
      -- the rule is there already, or it is new
      obtain ⟨o, ho, hinside'⟩ : ∃ o, v.addLogical x e l = .ok o ∧ t.Inside (o.getD v) := by
        rcases hrule with ⟨w, hw, hc⟩ | ⟨hd, he'⟩
        · exact ⟨none, State.addLogical_eq_ok.2 ⟨hfree, .inl ⟨w, hdata ▸ hw, hc, rfl⟩⟩, hinside⟩
        · rw [← hdata] at hd
          cases hl : v.logical.get? x.name with
          | some e₀ =>
            have heq := hinside.within.rules.logical hl
            rw [he'] at heq
            cases heq
            exact ⟨none, State.addLogical_eq_ok.2
              ⟨hfree, .inr (.inl ⟨hd, e, hl, e.same_refl, rfl⟩)⟩, hinside⟩
          | none =>
            exact ⟨_, State.addLogical_eq_ok.2 ⟨hfree, .inr (.inr ⟨hd, hl, rfl⟩)⟩,
              hinside.putLogical he'⟩
      exact ⟨_, _, absorbLogical_assign.2 (.inr ⟨x, e, v, o, hv, ho, rfl, rfl⟩), hinside', trivial⟩
    · exact ⟨_, v, absorbLogical_assign.2 (.inl ⟨f, hv, rfl⟩), hinside, trivial⟩
  | _ => exact .pure trivial

/-- A stochastic definition that is settled in the end can be absorbed. -/
theorem absorbStochastic_stays (ht : t.registry.WellFormed) {st : Stmt} (hst : t.Settles st)
    {p : Expr → Prop} (hsingle : st.Every p Expr.SingleCells) :
    Stays t (absorbStochastic st) fun _ => True := by
  cases st with
  | sample lhs rhs l =>
    obtain ⟨hcheck, x, e, g, hx, he, hname, hlogical, hg, hrule⟩ := hst
    intro u hu
    obtain ⟨result, v, hv, hinside, rfl | ⟨f, rfl⟩⟩ :=
      lowered_stays ht hx he hname hsingle.1 hsingle.2 l hu
    · have hfree : v.logical.contains x.name = false :=
        Assoc.contains_eq_false_of_get? (fun he => hinside.within.rules.logical he) hlogical
      obtain ⟨o, ho, hinside'⟩ : ∃ o, v.addStochastic x g l = .ok o ∧ t.Inside (o.getD v) := by
        cases hs : v.stochastic.get? x.name with
        | some g₀ =>
          have heq := hinside.within.stochastic hs
          rw [hrule] at heq
          cases heq
          exact ⟨none, State.addStochastic_eq_ok.2
            ⟨hfree, .inl ⟨g, hs, g.expression.same_refl, rfl⟩⟩, hinside⟩
        | none =>
          refine ⟨_, State.addStochastic_eq_ok.2 ⟨hfree, .inr ⟨hs, rfl⟩⟩,
            ⟨hinside.within.rules, hinside.within.registry, ?_⟩, hinside.wellFormed, hinside.keys⟩
          intro k g' hk
          rw [Option.getD_some, Assoc.get?_put] at hk
          split at hk
          · next h => rw [h, hrule, ← hk]
          · exact hinside.within.stochastic hk
      exact ⟨_, _, absorbStochastic_sample.2 ⟨hcheck, .inr ⟨x, e, v, g, o, hv, hg, ho, rfl, rfl⟩⟩,
        hinside', trivial⟩
    · exact ⟨_, v, absorbStochastic_sample.2 ⟨hcheck, .inl ⟨f, hv, rfl⟩⟩, hinside, trivial⟩
  | _ => exact .pure trivial

end PlateModel
