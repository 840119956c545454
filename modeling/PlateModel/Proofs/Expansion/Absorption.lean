import PlateModel.Proofs.Expansion.Expands
import PlateModel.Proofs.Model.Parts
import PlateModel.Proofs.State.Growth

/-!
# What becomes of definitions

Absorbing a definition lowers both of its sides and adds the rule, unless the rule is there already.
A definition whose indices do not come to integers is postponed. What has been lowered is lowered
again in every later state; what has been postponed is not lowered in any state with the same rules.

* `State.Records`: the state holds the rule of a definition.
* `lowered_eq_ok`, `lowered_eq_unresolved`: when both sides can be lowered.
* `Absorbs`: what absorbing makes of a definition; `absorbLogical_absorbs` and
  `absorbStochastic_absorbs`: so do the two ways to absorb.
* `lowered_lowers`, `lowered_stuck`: what that says about later states.
-/

namespace PlateModel

open Compiling

/-! ## Both sides -/

section Sides

variable {lhs rhs : Expr} {l : Option Location} {s t : State} {x : Symbol} {e : Expr} {f : Fault}

/-- A left-hand side is a name or a reference. -/
def IsTarget : Expr → Prop
  | .name _ | .index .. => True
  | _ => False

theorem isTarget_of_symbolic {d : Definitions} {r r' : Registry} {y : Symbol ⊕ Reference}
    (h : d.symbolic lhs r = (.ok y, r')) : IsTarget lhs := by
  cases lhs with
  | name | index => trivial
  | _ => cases h

/-- A single symbol on the left; a name must not be that of an array. -/
def singleTarget (lhs : Expr) (l : Option Location) : Symbol ⊕ Reference → Compiling Symbol
  | .inl x => do
    let s ← get
    if s.registry.contains x.name then throw (.model (.targetSlice lhs) l)
    return x
  | .inr (.one c) => return .cell c
  | .inr (.block ..) => throw (.model (.targetSlice lhs) l)

theorem singleTarget_inl (x : Symbol) (u : State) :
    singleTarget lhs l (.inl x) u = if u.registry.contains x.name
      then (.error (.model (.targetSlice lhs) l), u) else (.ok x, u) := by
  rw [singleTarget, run_bind, run_get]
  dsimp only
  split <;> rfl

theorem target_of_isTarget (h : IsTarget lhs) (l : Option Location) (s : State) :
    target lhs l s = (refer (·.symbolic lhs) >>= singleTarget lhs l) s := by
  have eq : (fun y : Symbol ⊕ Reference => (match y with
      | .inl x => do
        let s ← get
        if s.registry.contains x.name then throw (.model (.targetSlice lhs) l)
        return x
      | .inr (.one c) => return .cell c
      | .inr (.block ..) => throw (.model (.targetSlice lhs) l) : Compiling Symbol)) =
      singleTarget lhs l := by
    funext y
    rcases y with x | c | ⟨shape, cells⟩ <;> rfl
  rw [← eq]
  cases lhs with
  | name | index => rfl
  | _ => cases h

/-- Only a name stands for a variable. -/
theorem symbolic_eq_inl {d : Definitions} {r r' : Registry}
    (h : d.symbolic lhs r = (.ok (.inl x), r')) : ∃ n, lhs = .name n ∧ x = .scalar n ∧ r' = r := by
  cases lhs with
  | name n => cases h; exact ⟨n, rfl, rfl, rfl⟩
  | index base is l =>
    obtain ⟨_, _, _, h⟩ := run_bind_eq_ok.1 h
    obtain ⟨_, _, _, h⟩ := run_bind_eq_ok.1 h
    obtain ⟨_, _, _, h⟩ := run_bind_eq_ok.1 h
    cases h
  | _ => cases h

/-- When a left-hand side is accepted: it stands for a single symbol, and it is no whole array. -/
theorem target_eq_ok : target lhs l s = (.ok x, t) ↔ ∃ y r,
    s.toDefinitions.symbolic lhs s.registry = (.ok y, r) ∧ symbol? y = some x ∧
    (∀ n, lhs = .name n → s.registry.contains n = false) ∧ t = { s with registry := r } := by
  constructor
  · intro h
    have htarget : IsTarget lhs := by
      cases lhs with
      | name | index => trivial
      | _ => cases h
    rw [target_of_isTarget htarget] at h
    obtain ⟨y, u, hy, h⟩ := run_bind_eq_ok.1 h
    obtain ⟨r, hr, rfl⟩ := refer_eq.1 hy
    have hname : ∀ n, lhs = .name n → s.registry.contains n = false := by
      rintro n rfl
      cases hr
      rw [singleTarget_inl] at h
      split at h
      · cases h
      · next hc => exact Bool.not_eq_true _ ▸ hc
    have hsymbol : symbol? y = some x ∧ t = { s with registry := r } := by
      rcases y with x' | c | ⟨shape, cells⟩
      · rw [singleTarget_inl] at h
        split at h <;> cases h
        exact ⟨rfl, rfl⟩
      · cases h; exact ⟨rfl, rfl⟩
      · cases h
    exact ⟨y, r, hr, hsymbol.1, hname, hsymbol.2⟩
  · rintro ⟨y, r, hy, hsymbol, hname, rfl⟩
    rw [target_of_isTarget (isTarget_of_symbolic hy)]
    refine run_bind_eq_ok.2 ⟨y, _, refer_eq.2 ⟨r, hy, rfl⟩, ?_⟩
    rcases y with x' | c | ⟨shape, cells⟩
    · cases hsymbol
      obtain ⟨n, rfl, rfl, rfl⟩ := symbolic_eq_inl hy
      have hn := hname n rfl
      rw [singleTarget_inl, if_neg (by simpa [Symbol.name] using hn)]
    · cases hsymbol; rfl
    · cases hsymbol

theorem target_eq_unresolved (h : target lhs l s = (.error f, t)) (hf : f.isUnresolvedIndex) :
    ∃ r, s.toDefinitions.symbolic lhs s.registry = (.error f, r) ∧
      t = { s with registry := r } := by
  have htarget : IsTarget lhs := by
    cases lhs with
    | name | index => trivial
    | _ => cases h; cases hf
  rw [target_of_isTarget htarget] at h
  rcases run_bind_eq_error.1 h with h | ⟨y, u, -, h⟩
  · exact refer_eq.1 h
  · rcases y with x' | c | ⟨shape, cells⟩
    · rw [singleTarget_inl] at h
      split at h
      · cases h; cases hf
      · cases h
    · cases h
    · cases h; cases hf

/-- When both sides of a definition are lowered. -/
theorem lowered_eq_ok : lowered lhs rhs l s = (.ok (.ok (x, e)), t) ↔ ∃ y r r',
    s.toDefinitions.symbolic lhs s.registry = (.ok y, r) ∧ symbol? y = some x ∧
    (∀ n, lhs = .name n → s.registry.contains n = false) ∧
    s.toDefinitions.lower rhs r = (.ok e, r') ∧ t = { s with registry := r' } := by
  unfold lowered
  rw [unlessUnresolved_eq_ok]
  constructor
  · intro h
    obtain ⟨x', u, hx, h⟩ := run_bind_eq_ok.1 h
    obtain ⟨y, r, hy, hsymbol, hname, rfl⟩ := target_eq_ok.1 hx
    obtain ⟨e', v, he, h⟩ := run_bind_eq_ok.1 h
    obtain ⟨r', hr', rfl⟩ := refer_eq.1 he
    cases h
    exact ⟨y, r, r', hy, hsymbol, hname, hr', rfl⟩
  · rintro ⟨y, r, r', hy, hsymbol, hname, hr', rfl⟩
    refine run_bind_eq_ok.2 ⟨x, _, target_eq_ok.2 ⟨y, r, hy, hsymbol, hname, rfl⟩, ?_⟩
    exact run_bind_eq_ok.2 ⟨e, _, refer_eq.2 ⟨r', hr', rfl⟩, rfl⟩

/-- When a side of a definition cannot be lowered for want of an index. -/
theorem lowered_eq_unresolved (h : lowered lhs rhs l s = (.ok (.error f), t)) :
    f.isUnresolvedIndex ∧ ∃ r, t = { s with registry := r } ∧
      (s.toDefinitions.symbolic lhs s.registry = (.error f, r) ∨
        ∃ y r', s.toDefinitions.symbolic lhs s.registry = (.ok y, r') ∧
          s.toDefinitions.lower rhs r' = (.error f, r)) := by
  unfold lowered at h
  obtain ⟨h, hf⟩ := unlessUnresolved_eq_unresolved.1 h
  refine ⟨hf, ?_⟩
  rcases run_bind_eq_error.1 h with h | ⟨x, u, hx, h⟩
  · obtain ⟨r, hr, rfl⟩ := target_eq_unresolved h hf
    exact ⟨r, rfl, .inl hr⟩
  · obtain ⟨y, r', hy, -, -, rfl⟩ := target_eq_ok.1 hx
    rcases run_bind_eq_error.1 h with h | ⟨_, _, _, h⟩
    · obtain ⟨r, hr, rfl⟩ := refer_eq.1 h
      exact ⟨r, rfl, .inr ⟨y, r', hy, hr⟩⟩
    · cases h

end Sides

/-! ## Growth -/

section Growth

variable {K : String → Prop} {lhs rhs : Expr}

open Definitions (RefersIn symbolic_grows lower_grows)

theorem target_refers (hlhs : RefersIn K lhs.references) (l : Option Location) :
    Refers K (target lhs l) := by
  have single : Refers K (refer (·.symbolic lhs) >>= singleTarget lhs l) := by
    refine (Refers.refer fun d => symbolic_grows d lhs hlhs).bind fun y => ?_
    rcases y with x | c | ⟨shape, cells⟩
    · intro s a t h
      rw [singleTarget_inl] at h
      split at h <;> cases h <;> exact ReferOrder.refl s
    · exact .pure _
    · exact .throw _
  intro s a t h
  by_cases htarget : IsTarget lhs
  · rw [target_of_isTarget htarget] at h
    exact single s a t h
  · cases lhs with
    | name | index => exact absurd trivial htarget
    | _ => cases h; exact ReferOrder.refl s

theorem lowered_refers (hlhs : RefersIn K lhs.references) (hrhs : RefersIn K rhs.references)
    (l : Option Location) : Refers K (lowered lhs rhs l) := by
  refine Refers.unlessUnresolved ((target_refers hlhs l).bind fun _ => ?_)
  exact (Refers.refer fun d => lower_grows d rhs hrhs).bind fun _ => .pure _

end Growth

/-! ## Later states -/

section Later

variable {lhs rhs : Expr} {l : Option Location} {s s' t : State} {x : Symbol} {e : Expr} {f : Fault}

open Definitions (symbolic_replays lower_replays symbolic_grows lower_grows grows_any)

/-- A left-hand side stands for the same symbol in every later state. -/
theorem denotes_of_symbolic {r r' : Registry} {y : Symbol ⊕ Reference}
    (h : s.toDefinitions.symbolic lhs r = (.ok y, r')) (hy : symbol? y = some x)
    (hr : r.WellFormed) (ht : t.registry.WellFormed)
    (hrules : s.toDefinitions.Within t.toDefinitions) (hle : r'.Within t.registry)
    (hlhs : lhs.SingleIndices) : t.Denotes lhs x := by
  obtain ⟨y', hy', hsame⟩ := (symbolic_replays hrules ht hlhs).ok hr h hle
  refine ⟨y', hy', ?_⟩
  rcases y with x' | c | ⟨shape, cells⟩
  · rw [← hsame.1 x' rfl]; exact hy
  · rw [← hsame.2 c rfl]; exact hy
  · cases hy

theorem State.Denotes.mono (h : s.Denotes lhs x) (hs : s.registry.WellFormed)
    (ht : t.registry.WellFormed) (hle : s.Within t) (hlhs : lhs.SingleIndices) :
    t.Denotes lhs x := by
  obtain ⟨y, hy, hsymbol⟩ := h
  exact denotes_of_symbolic hy hsymbol hs ht hle.rules hle.registry hlhs

/-- What can be lowered can be lowered in every later state. -/
theorem State.Lowers.mono (hs : s.registry.WellFormed) (ht : t.registry.WellFormed)
    (hle : s.Within t) : ∀ {st : Stmt}, s.Lowers st → st.Every Expr.SingleCells Expr.SingleIndices →
    t.Lowers st
  | .assign .., ⟨⟨x, hx⟩, e, he⟩, hst | .sample .., ⟨⟨x, hx⟩, e, he⟩, hst => by
    refine ⟨⟨x, hx.mono hs ht hle hst.1⟩, ?_⟩
    obtain ⟨e', he', -⟩ := (lower_replays hle.rules ht hst.2).ok hs he hle.registry
    exact ⟨e', he'⟩

/-- What has been lowered is lowered again in every later state. -/
theorem lowered_lowers (h : lowered lhs rhs l s = (.ok (.ok (x, e)), s'))
    (hs : s.registry.WellFormed) (ht : t.registry.WellFormed) (hle : s'.Within t)
    (hlhs : lhs.SingleIndices) (hrhs : rhs.SingleIndices) :
    t.Denotes lhs x ∧ ∃ e', t.LowersTo rhs e' ∧ (rhs.SingleCells → e = e') := by
  obtain ⟨y, r, r', hy, hsymbol, -, he, rfl⟩ := lowered_eq_ok.1 h
  have hr := (symbolic_grows _ lhs grows_any).of_eq hy hs
  have hr' := (lower_grows _ rhs grows_any).of_eq he hr.wellFormed
  obtain ⟨e', he', heq⟩ := (lower_replays hle.rules ht hrhs).ok hr.wellFormed he hle.registry
  refine ⟨?_, e', he', heq⟩
  exact denotes_of_symbolic hy hsymbol hs ht hle.rules (hr'.within.trans hle.registry) hlhs

/-- What has been postponed is not lowered in any later state with the same rules. -/
theorem lowered_stuck (h : lowered lhs rhs l s = (.ok (.error f), s'))
    (hs : s.registry.WellFormed) (ht : t.registry.WellFormed)
    (hrules : s.toDefinitions = t.toDefinitions) (hle : s'.registry.Within t.registry)
    (hlhs : lhs.SingleIndices) (hrhs : rhs.SingleIndices) :
    ¬ ((∃ x, t.Denotes lhs x) ∧ ∃ e, t.LowersTo rhs e) := by
  rintro ⟨⟨x, y, hy, -⟩, e, he⟩
  have hwithin : s.toDefinitions.Within t.toDefinitions := hrules ▸ .refl _
  obtain ⟨hf, r, rfl, hstuck | ⟨y', r', hy', hstuck⟩⟩ := lowered_eq_unresolved h
  · have := (symbolic_replays hwithin ht hlhs).stuck hrules hs hstuck hf hle
    rw [hy] at this
    cases this
  · have hr' := (symbolic_grows _ lhs grows_any).of_eq hy' hs
    have := (lower_replays hwithin ht hrhs).stuck hrules hr'.wellFormed hstuck hf hle
    rw [State.LowersTo, this] at he
    cases he

end Later

/-! ## Rules -/

namespace State

/-- The state holds what a definition says of a symbol: the data say it, or a rule does. -/
def Records (t : State) : Stmt → Symbol → Expr → Prop
  | .assign .., x, e => (∃ v, t.data.get? x.name = some v ∧ confirms v e) ∨
      (t.data.get? x.name = none ∧ ∃ rule, t.logical.get? x.name = some rule ∧ rule.same e)
  | .sample .., x, e => ∃ rule, t.stochastic.get? x.name = some rule ∧ rule.expression.same e
  | _, _, _ => False

theorem Records.mono {s t : State} (hle : s.Within t) : ∀ {st : Stmt} {x : Symbol} {e : Expr},
    s.Records st x e → t.Records st x e
  | .assign .., x, e, h => by
    rw [Records, ← hle.rules.data_eq]
    exact h.imp_right fun ⟨hd, rule, hrule, hsame⟩ => ⟨hd, rule, hle.rules.logical hrule, hsame⟩
  | .sample .., x, e, ⟨rule, hrule, hsame⟩ => ⟨rule, hle.stochastic hrule, hsame⟩

end State

/-- A statement is a definition with these sides. -/
def Stmt.IsDefinition (lhs rhs : Expr) (l : Option Location) (st : Stmt) : Prop :=
  st = .assign lhs rhs l ∨ st = .sample lhs rhs l

/-- What absorbing makes of a statement: it leaves it, or it lowers its sides and records it. -/
inductive Absorbs (st : Stmt) (s : State) : Absorption → State → Prop
  | skipped : Absorbs st s .skipped s
  | postponed {lhs rhs : Expr} {l : Option Location} {why : Fault} {t : State}
    (hst : st.IsDefinition lhs rhs l) (h : lowered lhs rhs l s = (.ok (.error why), t)) :
    Absorbs st s (.postponed why) t
  | absorbed {lhs rhs e : Expr} {l : Option Location} {x : Symbol} {u t : State} {new : Bool}
    (hst : st.IsDefinition lhs rhs l) (h : lowered lhs rhs l s = (.ok (.ok (x, e)), u))
    (hregistry : t.registry = u.registry) (hrecords : t.Records st x e) :
    Absorbs st s (.absorbed new) t

theorem absorb_eq_ok {o : Option State} {s t : State} {a : Absorption} :
    absorb o s = (.ok a, t) ↔ a = .absorbed o.isSome ∧ t = o.getD s := by
  cases o with
  | none => exact ⟨fun h => by cases h; exact ⟨rfl, rfl⟩, fun ⟨ha, ht⟩ => by rw [ha, ht]; rfl⟩
  | some u => exact ⟨fun h => by cases h; exact ⟨rfl, rfl⟩, fun ⟨ha, ht⟩ => by rw [ha, ht]; rfl⟩

/-- How a logical definition is absorbed. -/
theorem absorbLogical_assign {lhs rhs : Expr} {l : Option Location} {s t : State} {a : Absorption} :
    absorbLogical (.assign lhs rhs l) s = (.ok a, t) ↔
      (∃ why, lowered lhs rhs l s = (.ok (.error why), t) ∧ a = .postponed why) ∨
      ∃ x e u o, lowered lhs rhs l s = (.ok (.ok (x, e)), u) ∧ u.addLogical x e l = .ok o ∧
        a = .absorbed o.isSome ∧ t = o.getD u := by
  unfold absorbLogical
  rw [run_bind_eq_ok]
  constructor
  · rintro ⟨result, u, hu, h⟩
    cases result with
    | error why => cases h; exact .inl ⟨why, hu, rfl⟩
    | ok xe =>
      obtain ⟨x, e⟩ := xe
      obtain ⟨_, _, hget, h⟩ := run_bind_eq_ok.1 h
      cases hget
      obtain ⟨o, _, ho, h⟩ := run_bind_eq_ok.1 h
      rw [run_lift] at ho
      cases congrArg Prod.snd ho
      exact .inr ⟨x, e, u, o, hu, congrArg Prod.fst ho, absorb_eq_ok.1 h⟩
  · rintro (⟨why, hu, rfl⟩ | ⟨x, e, u, o, hu, ho, ha⟩)
    · exact ⟨.error why, t, hu, rfl⟩
    · refine ⟨.ok (x, e), u, hu, run_bind_eq_ok.2 ⟨u, u, rfl, run_bind_eq_ok.2 ⟨o, u, ?_, ?_⟩⟩⟩
      · rw [run_lift, ho]
      · exact absorb_eq_ok.2 ha

/-- How a stochastic definition is absorbed. -/
theorem absorbStochastic_sample {lhs rhs : Expr} {l : Option Location} {s t : State}
    {a : Absorption} :
    absorbStochastic (.sample lhs rhs l) s = (.ok a, t) ↔ checkDistribution rhs l = .ok () ∧
      ((∃ why, lowered lhs rhs l s = (.ok (.error why), t) ∧ a = .postponed why) ∨
      ∃ x e u g o, lowered lhs rhs l s = (.ok (.ok (x, e)), u) ∧ Generator.ofExpr e = .ok g ∧
        u.addStochastic x g l = .ok o ∧ a = .absorbed o.isSome ∧ t = o.getD u) := by
  unfold absorbStochastic
  rw [run_bind_eq_ok]
  constructor
  · rintro ⟨⟨⟩, _, hcheck, h⟩
    rw [run_lift] at hcheck
    cases congrArg Prod.snd hcheck
    refine ⟨congrArg Prod.fst hcheck, ?_⟩
    obtain ⟨result, u, hu, h⟩ := run_bind_eq_ok.1 h
    cases result with
    | error why => cases h; exact .inl ⟨why, hu, rfl⟩
    | ok xe =>
      obtain ⟨x, e⟩ := xe
      obtain ⟨g, _, hg, h⟩ := run_bind_eq_ok.1 h
      rw [run_lift] at hg
      cases congrArg Prod.snd hg
      obtain ⟨_, _, hget, h⟩ := run_bind_eq_ok.1 h
      cases hget
      obtain ⟨o, _, ho, h⟩ := run_bind_eq_ok.1 h
      rw [run_lift] at ho
      cases congrArg Prod.snd ho
      exact .inr ⟨x, e, u, g, o, hu, congrArg Prod.fst hg, congrArg Prod.fst ho, absorb_eq_ok.1 h⟩
  · rintro ⟨hcheck, h⟩
    refine ⟨(), s, by rw [run_lift, hcheck], run_bind_eq_ok.2 ?_⟩
    rcases h with ⟨why, hu, rfl⟩ | ⟨x, e, u, g, o, hu, hg, ho, ha⟩
    · exact ⟨.error why, t, hu, rfl⟩
    · refine ⟨.ok (x, e), u, hu, run_bind_eq_ok.2 ⟨g, u, by rw [run_lift, hg], ?_⟩⟩
      refine run_bind_eq_ok.2 ⟨u, u, rfl, run_bind_eq_ok.2 ⟨o, u, by rw [run_lift, ho], ?_⟩⟩
      exact absorb_eq_ok.2 ha

theorem absorbLogical_absorbs {st : Stmt} {s t : State} {a : Absorption}
    (h : absorbLogical st s = (.ok a, t)) : Absorbs st s a t := by
  cases st with
  | assign lhs rhs l =>
    rcases absorbLogical_assign.1 h with ⟨why, hu, rfl⟩ | ⟨x, e, u, o, hu, ho, rfl, rfl⟩
    · exact .postponed (.inl rfl) hu
    · rcases State.addLogical_eq_ok.1 ho with
        ⟨-, ⟨v, hv, hc, rfl⟩ | ⟨hd, rule, hrule, hsame, rfl⟩ | ⟨hd, -, rfl⟩⟩
      · exact .absorbed (.inl rfl) hu rfl (.inl ⟨v, hv, hc⟩)
      · exact .absorbed (.inl rfl) hu rfl (.inr ⟨hd, rule, hrule, hsame⟩)
      · exact .absorbed (.inl rfl) hu rfl
          (.inr ⟨hd, e, Assoc.get?_put_self, e.same_refl⟩)
  | _ => cases h; exact .skipped

theorem expression_of_ofExpr {e : Expr} {g : Generator} (h : Generator.ofExpr e = .ok g) :
    g.expression = e := by
  obtain ⟨_, -, rfl⟩ := map_eq_ok.1 h
  rfl

theorem absorbStochastic_absorbs {st : Stmt} {s t : State} {a : Absorption}
    (h : absorbStochastic st s = (.ok a, t)) : Absorbs st s a t := by
  cases st with
  | sample lhs rhs l =>
    rcases (absorbStochastic_sample.1 h).2 with
      ⟨why, hu, rfl⟩ | ⟨x, e, u, g, o, hu, hg, ho, rfl, rfl⟩
    · exact .postponed (.inr rfl) hu
    · have he := expression_of_ofExpr hg
      rcases State.addStochastic_eq_ok.1 ho with ⟨-, ⟨rule, hrule, hsame, rfl⟩ | ⟨-, rfl⟩⟩
      · exact .absorbed (.inr rfl) hu rfl ⟨rule, hrule, he ▸ hsame⟩
      · exact .absorbed (.inr rfl) hu rfl
          ⟨g, Assoc.get?_put_self, he ▸ e.same_refl⟩
  | _ => cases h; exact .skipped

/-! ## Growth of the rules -/

section Rules

variable {K : String → Prop}

open Definitions (RefersIn symbolic_grows)

theorem addRule_grows {f : State → Except Fault (Option State)}
    (hf : ∀ {u v}, u.registry.WellFormed → f u = .ok (some v) → u.Grows K v) :
    Grows K (get >>= fun s => liftM (f s) >>= absorb) := by
  intro s x t h hs
  rw [run_bind_of_ok (run_get s), run_bind, run_lift] at h
  cases ho : f s with
  | error e =>
    rw [ho] at h
    cases h
    exact .refl hs
  | ok o =>
    rw [ho] at h
    cases o with
    | none => cases h; exact .refl hs
    | some v => cases h; exact hf hs ho

theorem absorbLogical_grows {st : Stmt} {p : Expr → Prop}
    (hst : st.Every p fun e => RefersIn K e.references) : Grows K (absorbLogical st) := by
  cases st with
  | assign lhs rhs l =>
    refine (lowered_refers hst.1 hst.2 l).grows.bind fun result => ?_
    rcases result with why | ⟨x, e⟩
    · exact .pure _
    · exact addRule_grows fun hu hv => State.grows_addLogical hu hv
  | _ => exact .pure _

theorem absorbStochastic_grows {st : Stmt} {p : Expr → Prop}
    (hst : st.Every p fun e => RefersIn K e.references) : Grows K (absorbStochastic st) := by
  cases st with
  | sample lhs rhs l =>
    refine (Grows.lift _).bind fun _ => (lowered_refers hst.1 hst.2 l).grows.bind fun result => ?_
    rcases result with why | ⟨x, e⟩
    · exact .pure _
    · exact (Grows.lift _).bind fun g =>
        addRule_grows fun hu hv => State.grows_addStochastic hu hv
  | _ => exact .pure _

theorem registerTarget_refers {st : Stmt} {p : Expr → Prop}
    (hst : st.Every p fun e => RefersIn K e.references) : Refers K (registerTarget st) := by
  unfold registerTarget
  split
  · exact (Refers.unlessUnresolved (.refer fun d => symbolic_grows d _ hst.1)).bind
      fun _ => .pure _
  · exact (Refers.unlessUnresolved (.refer fun d => symbolic_grows d _ hst.1)).bind
      fun _ => .pure _
  · exact .pure _

theorem lowered_keepsRules {lhs rhs : Expr} {l : Option Location} {s t : State}
    {x : Except Fault (Symbol × Expr)} (h : lowered lhs rhs l s = (.ok x, t)) :
    t.toDefinitions = s.toDefinitions := by
  cases x with
  | error f =>
    obtain ⟨-, r, rfl, -⟩ := lowered_eq_unresolved h
    rfl
  | ok xe =>
    obtain ⟨y, r, r', -, -, -, -, rfl⟩ := lowered_eq_ok.1 h
    rfl

/-- Absorbing a logical definition adds at most one rule. -/
theorem size_of_absorbLogical {st : Stmt} {s t : State} {a : Absorption}
    (h : absorbLogical st s = (.ok a, t)) :
    t.logical.size = s.logical.size + if Resolution.isNew (st, a) then 1 else 0 := by
  cases st with
  | assign lhs rhs l =>
    rcases absorbLogical_assign.1 h with ⟨why, hu, rfl⟩ | ⟨x, e, u, o, hu, ho, rfl, rfl⟩
    · rw [lowered_keepsRules hu]
      rfl
    · rw [← lowered_keepsRules hu]
      rcases State.addLogical_eq_ok.1 ho with ⟨-, ⟨_, _, _, rfl⟩ | ⟨_, _, _, _, rfl⟩ | ⟨-, hl, rfl⟩⟩
      · rfl
      · rfl
      · exact Assoc.size_put_of_fresh hl
  | _ => cases h; rfl

/-- Absorbing a stochastic definition changes no logical rule. -/
theorem absorbStochastic_keepsRules {st : Stmt} {s t : State} {a : Absorption}
    (h : absorbStochastic st s = (.ok a, t)) : t.toDefinitions = s.toDefinitions := by
  cases st with
  | sample lhs rhs l =>
    rcases (absorbStochastic_sample.1 h).2 with
      ⟨why, hu, rfl⟩ | ⟨x, e, u, g, o, hu, hg, ho, rfl, rfl⟩
    · exact lowered_keepsRules hu
    · rw [← lowered_keepsRules hu]
      rcases State.addStochastic_eq_ok.1 ho with ⟨-, ⟨_, _, _, rfl⟩ | ⟨-, rfl⟩⟩ <;> rfl
  | _ => cases h; rfl

end Rules

/-- What has been absorbed is lowered again in every later state, which still records it. -/
theorem Absorbs.lowers {st : Stmt} {s s' t : State} {new : Bool}
    (h : Absorbs st s (.absorbed new) s') (hs : s.registry.WellFormed) (ht : t.registry.WellFormed)
    (hss' : s.Within s') (hle : s'.Within t)
    (hst : st.Every Expr.SingleCells Expr.SingleIndices) :
    ∃ lhs rhs l x e e', st.IsDefinition lhs rhs l ∧ t.Denotes lhs x ∧ t.LowersTo rhs e' ∧
      (rhs.SingleCells → e = e') ∧ t.Records st x e := by
  cases h with
  | @absorbed lhs rhs e l x u _ _ hdefinition hlowered hregistry hrecords =>
    have hu := (lowered_refers (K := fun _ => True) Definitions.grows_any Definitions.grows_any
      l).of_eq hlowered hs
    have hut : u.Within t := by
      have hst := hss'.trans hle
      rw [hu.2]
      exact ⟨hst.rules, hregistry ▸ hle.registry, hst.stochastic⟩
    have hsides : lhs.SingleIndices ∧ rhs.SingleIndices := by
      rcases hdefinition with rfl | rfl
      · exact hst
      · exact hst
    obtain ⟨hx, e', he', heq⟩ := lowered_lowers hlowered hs ht hut hsides.1 hsides.2
    exact ⟨lhs, rhs, l, x, e, e', hdefinition, hx, he', heq, hrecords.mono hle⟩

end PlateModel
