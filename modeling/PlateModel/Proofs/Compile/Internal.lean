import PlateModel.Model.Form
import PlateModel.Proofs.Compile.Invariant
import PlateModel.Proofs.Confluence.Sources
import PlateModel.Proofs.Expansion.Failures

/-!
# Internal faults of a compilation

A compilation fails with an internal fault only if the program has a range without a step, or a
whole axis, on a right-hand side outside of index positions. No pass refuses such a form where it
stands. If it is in a stochastic definition, the absorption of this definition compiles it; if it is
in a logical one, then emission does. So where the compilation returns there is none of them left.

* `compile_internal`: what internal faults are about, and what is left when there is no fault.
* `compile_ranging`: a program that is read, and whose compilation fails with an internal fault.
-/

namespace PlateModel

open Compiling

variable {S : Unlowered → Prop}

/-! ## The passes before resolution -/

namespace Expr

theorem checkBase_fails (base : Expr) (is : List Expr) (l : Option Location) :
    FailsOnly (Fault.Concerns S) (checkBase base is l) := by
  cases base with
  | name x => exact .ok ()
  | _ => exact .error (concerns_model _ _)

mutual

theorem validate_fails : ∀ e : Expr, FailsOnly (Fault.Concerns S) e.validate
  | literal .. | name _ | index _ [] _ | colon _ => .ok _
  | index base (i :: is) l => (checkBase_fails base (i :: is) l).bind fun _ =>
    (validateAll_fails (i :: is)).bind fun _ => .ok _
  | call f args l => by
    rw [validate]
    split
    · exact .error (concerns_model _ _)
    · exact (validateAll_fails args).bind fun _ => .ok _
  | range a b _ => (validate_fails a).bind fun _ => (validate_fails b).bind fun _ => .ok _
  | stepped .. => .error (concerns_model _ _)
  | array xs _ _ => (validateAll_fails xs).bind fun _ => .ok _

theorem validateAll_fails : ∀ es : List Expr, FailsOnly (Fault.Concerns S) (validateAll es)
  | [] => .ok _
  | e :: es => (validate_fails e).bind fun _ => (validateAll_fails es).bind fun _ => .ok _

end

theorem validateTarget_fails (l : Option Location) (e : Expr) :
    FailsOnly (Fault.Concerns S) (e.validateTarget l) := by
  unfold validateTarget
  split
  · exact .ok _
  · exact .error (concerns_model _ _)
  · exact validate_fails _
  · exact .error (concerns_model _ _)
  · exact .error (concerns_model _ _)

theorem validateLinkedTarget_fails (l : Option Location) (e : Expr) :
    FailsOnly (Fault.Concerns S) (e.validateLinkedTarget l) := by
  unfold validateLinkedTarget
  split
  · exact (validateTarget_fails l _).bind fun _ => .ok _
  · exact validateTarget_fails l _

theorem distribution_fails (samples : Samples) (f : SpecialFunction) (x : Expr)
    (l : Option Location) : FailsOnly (Fault.Concerns S) (samples.distribution f x l) := by
  unfold Samples.distribution
  split
  · exact .ok _
  · exact .error (concerns_model _ _)
  · exact .error (concerns_model _ _)

theorem expandCall_fails (samples : Samples) (f : String) (args : List Expr) (l : Option Location) :
    FailsOnly (Fault.Concerns S) (expandCall samples f args l) := by
  unfold expandCall
  split
  · exact .ok _
  · exact (distribution_fails samples _ _ l).bind fun _ => .ok _
  · exact .error (concerns_model _ _)

mutual

theorem expandSpecial_fails (samples : Samples) : ∀ e : Expr,
    FailsOnly (Fault.Concerns S) (e.expandSpecial samples)
  | literal .. | name _ | colon _ => .ok _
  | index base is _ => (expandSpecial_fails samples base).bind fun _ =>
    (expandSpecialAll_fails samples is).bind fun _ => .ok _
  | call f args l => (expandSpecialAll_fails samples args).bind fun args =>
    expandCall_fails samples f args l
  | range a b _ => (expandSpecial_fails samples a).bind fun _ =>
    (expandSpecial_fails samples b).bind fun _ => .ok _
  | stepped a b s _ => (expandSpecial_fails samples s).bind fun _ =>
    (expandSpecial_fails samples a).bind fun _ => (expandSpecial_fails samples b).bind fun _ =>
      .ok _
  | array xs _ _ => (expandSpecialAll_fails samples xs).bind fun _ => .ok _

theorem expandSpecialAll_fails (samples : Samples) : ∀ es : List Expr,
    FailsOnly (Fault.Concerns S) (expandSpecialAll samples es)
  | [] => .ok _
  | e :: es => (expandSpecial_fails samples e).bind fun _ =>
    (expandSpecialAll_fails samples es).bind fun _ => .ok _

end

end Expr

namespace Stmt

theorem checkSampled_fails (rhs : Expr) (l : Option Location) :
    FailsOnly (Fault.Concerns S) (checkSampled rhs l) := by
  unfold checkSampled
  split
  · split
    · exact .ok ()
    · exact .error (concerns_model _ _)
  · exact .error (concerns_model _ _)

mutual

theorem validate_fails : ∀ st : Stmt, FailsOnly (Fault.Concerns S) st.validate
  | assign lhs rhs l => (lhs.validateLinkedTarget_fails l).bind fun _ =>
    rhs.validate_fails.bind fun _ => .ok _
  | sample lhs rhs l => (lhs.validateTarget_fails l).bind fun _ =>
    (checkSampled_fails rhs l).bind fun _ => rhs.validate_fails.bind fun _ => .ok _
  | loop i lower upper body l => by
    rw [validate]
    split
    · exact .error (concerns_model _ _)
    · exact lower.validate_fails.bind fun _ => upper.validate_fails.bind fun _ =>
        (validateAll_fails body).bind fun _ => .ok _
  | branch condition body _ => condition.validate_fails.bind fun _ =>
    (validateAll_fails body).bind fun _ => .ok _

theorem validateAll_fails : ∀ ss : List Stmt, FailsOnly (Fault.Concerns S) (validateAll ss)
  | [] => .ok _
  | st :: ss => (validate_fails st).bind fun _ => (validateAll_fails ss).bind fun _ => .ok _

end

theorem unlinkAssign_fails (f : String) (args : List Expr) (rhs : Expr) (l : Option Location) :
    FailsOnly (Fault.Concerns S) (unlinkAssign f args rhs l) := by
  unfold unlinkAssign
  split
  · exact .ok _
  · exact .error (concerns_model _ _)

mutual

theorem unlink_fails : ∀ st : Stmt, FailsOnly (Fault.Concerns S) st.unlink
  | assign lhs rhs l => by
    cases lhs with
    | call f args k => exact unlinkAssign_fails f args rhs l
    | _ => exact .ok _
  | sample lhs rhs l => by
    cases lhs with
    | call f args k => exact .error (concerns_model _ _)
    | _ => exact .ok _
  | loop _ _ _ body _ | branch _ body _ => (unlinkAll_fails body).bind fun _ => .ok _

theorem unlinkAll_fails : ∀ ss : List Stmt, FailsOnly (Fault.Concerns S) (unlinkAll ss)
  | [] => .ok _
  | st :: ss => (unlink_fails st).bind fun _ => (unlinkAll_fails ss).bind fun _ => .ok _

end

mutual

theorem expandSpecial_fails (samples : Samples) : ∀ st : Stmt,
    FailsOnly (Fault.Concerns S) (st.expandSpecial samples)
  | assign lhs rhs _ | sample lhs rhs _ => (lhs.expandSpecial_fails samples).bind fun _ =>
    (rhs.expandSpecial_fails samples).bind fun _ => .ok _
  | loop _ lower upper body _ => (lower.expandSpecial_fails samples).bind fun _ =>
    (upper.expandSpecial_fails samples).bind fun _ =>
      (expandSpecialAll_fails samples body).bind fun _ => .ok _
  | branch condition body _ => (condition.expandSpecial_fails samples).bind fun _ =>
    (expandSpecialAll_fails samples body).bind fun _ => .ok _

theorem expandSpecialAll_fails (samples : Samples) : ∀ ss : List Stmt,
    FailsOnly (Fault.Concerns S) (expandSpecialAll samples ss)
  | [] => .ok _
  | st :: ss => (expandSpecial_fails samples st).bind fun _ =>
    (expandSpecialAll_fails samples ss).bind fun _ => .ok _

end

end Stmt

/-! ## Seeding -/

theorem cellValue_fails (name : String) (d : Datum) :
    FailsOnly (Fault.Concerns S) (cellValue name d) := by
  unfold cellValue
  split
  · exact .error (concerns_model _ _)
  · exact .ok _
  · exact .ok _
  · split
    · exact .error (concerns_model _ _)
    · exact .error (concerns_evaluation _)

theorem register_fails (r : Registry) (name : String) (shape : List Int) :
    FailsOnly (Fault.Concerns S) (r.register name shape) := by
  unfold Registry.register
  split
  · exact .error (concerns_model _ _)
  · split
    · exact .error (concerns_evaluation _)
    · exact r.allocate_fails name _

namespace State

theorem bindArray_fails (s : State) (name : String) (d : Datum) :
    FailsOnly (Fault.Concerns S) (s.bindArray name d) :=
  (FailsOnly.mapM fun c _ => cellValue_fails name c).bind fun _ =>
    (register_fails s.registry name _).bind fun _ => .ok _

theorem bind_fails (s : State) (name : String) (d : Datum) :
    FailsOnly (Fault.Concerns S) (s.bind name d) := by
  unfold State.bind
  split
  · exact s.bindArray_fails name _
  · exact .ok _
  · exact .ok _
  · exact .error (concerns_model _ _)

theorem seed_fails : ∀ data : List (String × Datum),
    RunFailsOnly (Fault.Concerns S) (State.seed data)
  | [] => .pure ()
  | (name, d) :: data => RunFailsOnly.get.bind fun s =>
    (RunFailsOnly.lift (s.bind_fails name d)).bind fun t =>
      (RunFailsOnly.set t).bind fun _ => seed_fails data

/-! ## Emission -/

/-- The logical rules have forms of certain kinds only. -/
def LogicalOnly (S : Unlowered → Prop) (s : State) : Prop :=
  ∀ ⦃k e⦄, s.logical.get? k = some e → e.Only S

theorem asDefault_fails (n : Number) : FailsOnly (Fault.Concerns S) n.asDefault := by
  unfold Number.asDefault
  split
  · exact .ok _
  · exact .error (concerns_evaluation _)

theorem default?_fails (s : State) (x : String) : FailsOnly (Fault.Concerns S) (s.default? x) := by
  refine (orFault_fails _).bind fun outcome => ?_
  split
  · exact (asDefault_fails _).bind fun _ => .ok _
  · exact .ok _

theorem dataNode_fails (v : Number) : FailsOnly (Fault.Concerns S) (dataNode v) :=
  (asDefault_fails v).bind fun _ => (ofExpr_fails (e := .ofNumber v) nofun).bind fun _ => .ok _

theorem logicalNode_fails (s : State) (x : String) {rhs : Expr} (h : rhs.Only S) :
    FailsOnly (Fault.Concerns S) (s.logicalNode x rhs) :=
  (s.default?_fails x).bind fun _ => (ofExpr_fails h).bind fun _ => .ok _

theorem stochasticNode_fails (s : State) (x : String) (g : Generator) :
    FailsOnly (Fault.Concerns S) (s.stochasticNode x g) := by
  refine (s.default?_fails x).bind fun o => ?_
  cases o with
  | none => exact .ok _
  | some y => exact .ok _

section Each

variable {α : Type} {node : String → α → Except Fault Node}

theorem emitEach_fails : ∀ {l : List (String × α)} {t : Assoc Node},
    (∀ x ∈ l, FailsOnly (Fault.Concerns S) (node x.1 x.2)) →
      FailsOnly (Fault.Concerns S) (emitEach node t l)
  | [], _, _ => .ok _
  | x :: _, _, h => (h x (List.mem_cons_self ..)).bind fun _ =>
    emitEach_fails fun y hy => h y (List.mem_cons_of_mem x hy)

/-- Where emission returns, there is a node for every entry. -/
theorem node_of_emitEach : ∀ {l : List (String × α)} {t t' : Assoc Node},
    emitEach node t l = .ok t' → ∀ x ∈ l, ∃ n, node x.1 x.2 = .ok n
  | x :: l, t, t', h, y, hy => by
    obtain ⟨n, hn, h⟩ := bind_eq_ok.1 h
    rcases List.mem_cons.1 hy with rfl | hy
    · exact ⟨n, hn⟩
    · exact node_of_emitEach h y hy

end Each

theorem emit_fails {s : State} (hkeys : s.logical.keys.Nodup) (hs : s.LogicalOnly S) :
    FailsOnly (Fault.Concerns S) s.emit := by
  refine (emitEach_fails fun x _ => dataNode_fails x.2).bind fun _ => ?_
  refine (emitEach_fails fun x hx => ?_).bind fun _ => ?_
  · exact s.logicalNode_fails x.1 (hs (Assoc.get?_of_mem hkeys hx))
  · exact emitEach_fails fun x _ => s.stochasticNode_fails x.1 x.2

/-- Where emission returns, every logical rule has been compiled. -/
theorem checkEvaluable_of_emit {s : State} {nodes : Assoc Node} (h : s.emit = .ok nodes)
    {k : String} {e : Expr} (he : s.logical.get? k = some e) : e.checkEvaluable = .ok () := by
  obtain ⟨_, -, h⟩ := bind_eq_ok.1 h
  obtain ⟨_, hlogical, -⟩ := bind_eq_ok.1 h
  obtain ⟨n, hn⟩ := node_of_emitEach hlogical _ (Assoc.mem_of_get? he)
  obtain ⟨_, -, hn⟩ := bind_eq_ok.1 hn
  obtain ⟨g, hg, -⟩ := bind_eq_ok.1 hn
  obtain ⟨_, hcheck, -⟩ := map_eq_ok.1 hg
  exact hcheck

theorem unlowered_of_emit {s : State} {nodes : Assoc Node} (h : s.emit = .ok nodes) {k : String}
    {e : Expr} (he : s.logical.get? k = some e) : e.unlowered = [] :=
  Expr.unlowered_of_checkEvaluable (checkEvaluable_of_emit h he)

end State

/-! ## Resolution -/

section Resolve

variable {w w' : Resolution} {p q : Program} {tally : Tally} {s s' t u v : State}

/-- A rule that is added is a lowered right-hand side. -/
theorem State.LogicalOnly.absorbLogical {st : Stmt} {a : Absorption} (hu : u.LogicalOnly S)
    (h : absorbLogical st u = (.ok a, v)) (hwf : u.registry.WellFormed)
    (hst : st.Every (fun _ => True) (Expr.Only fun k => k = .reference ∨ S k)) :
    v.LogicalOnly S := by
  intro k e he
  rcases rule_of_absorbLogical h hwf he with he | ⟨lhs, rhs, l, x, w, rfl, -, -, hlowered, -⟩
  · exact hu he
  · exact only_of_lowered hlowered hst.2

/-- The logical rules that a run adds are lowered right-hand sides. -/
theorem Resolution.Rounds.logicalOnly (h : Rounds w s w' s') (hs : s.registry.WellFormed)
    (hw : Stmt.OnlyAll (fun k => k = .reference ∨ S k) w.remaining) (hlogical : s.LogicalOnly S) :
    s'.LogicalOnly S := by
  refine (h.invariant (t := s') (motive := fun w s =>
    Stmt.OnlyAll (fun k => k = .reference ∨ S k) w.remaining ∧ s.LogicalOnly S)
    hs (.refl s') ?_ ⟨hw, hlogical⟩).2
  rintro v v' n u u' hstep hu hu' - ⟨hv, hlogical⟩
  refine ⟨hstep.every (fun _ _ _ _ => trivial) (Expr.stable_only _) hv, ?_⟩
  refine hstep.preserves (fun _ _ hP => hP) ?_ hu hu' hlogical
  intro st a u v hst _ hwf _ habsorb hP
  exact hP.absorbLogical habsorb hwf (Stmt.everyOfAll_iff.1 hv st hst)

theorem logicalOnly_of_resolve (hs : s.Seeded)
    (hp : Stmt.OnlyAll (fun k => k = .reference ∨ S k) p.statements)
    (h : p.resolve s = (.ok (q, tally), t)) : t.logical.keys.Nodup ∧ t.LogicalOnly S := by
  refine ⟨(absorbed_of_resolve hs.wellFormed h).1.keys_nodup ?_, ?_⟩
  · rw [hs.logical]
    exact List.nodup_nil
  · obtain ⟨w, u, results, hrounds, hresults, -, -⟩ := Program.resolve_eq_ok h
    rw [State.LogicalOnly, Resolution.rules_of_attempt hresults]
    refine hrounds.logicalOnly hs.wellFormed hp fun k e he => ?_
    rw [hs.logical] at he
    cases he

/-- Where the rules can all be compiled, the definitions that they come from have only references on
their right-hand sides that no generator is compiled from. -/
theorem not_misplaces_of_resolve {nodes : Assoc Node} (hs : s.registry.WellFormed)
    (h : p.resolve s = (.ok (q, tally), t))
    (hcompiled : ∀ ⦃x g⦄, t.stochastic.get? x = some g → Generator.ofExpr g.expression = .ok g)
    (hemit : t.emit = .ok nodes) (k : Unlowered) : ¬ q.Misplaces k := by
  rintro ⟨hk, hkind⟩
  obtain ⟨st, hst, hk⟩ := Stmt.mem_unloweredOfAll.1 hk
  have of_absorbs {u v : State} {new : Bool} (habsorbs : Absorbs st u (.absorbed new) v)
      (hv : v.Grows (fun _ => True) t) : k = .reference := by
    cases habsorbs with
    | @absorbed lhs rhs e l x _ _ _ hdefinition hlowered _ hrecords =>
      obtain ⟨y, r, r', -, -, -, hlower, -⟩ := lowered_eq_ok.1 hlowered
      have hrhs : k ∈ rhs.unlowered := by
        rcases hdefinition with rfl | rfl
        · exact hk
        · exact hk
      have he : e.unlowered = [] := by
        rcases hdefinition with rfl | rfl
        · rcases hrecords.mono hv.within with ⟨v, -, hconfirms⟩ | ⟨-, rule, hrule, hsame⟩
          · cases e with
            | literal => rfl
            | _ => cases hconfirms
          · rw [← Expr.unlowered_of_same hsame]
            exact State.unlowered_of_emit hemit hrule
        · obtain ⟨rule, hrule, hsame⟩ := hrecords.mono hv.within
          obtain ⟨_, hcheck, -⟩ := map_eq_ok.1 (hcompiled hrule)
          rw [← Expr.unlowered_of_same hsame]
          exact Expr.unlowered_of_checkEvaluable hcheck
      rw [Expr.unlowered_of_lower hlower, List.filter_eq_nil_iff] at he
      simpa using he k hrhs
  have hreference : k = .reference := by
    obtain ⟨new, ⟨u, v, -, h, -, hv⟩ | ⟨u, v, -, h, -, hv⟩⟩ := (absorbed_of_resolve hs h).2 st hst
    · exact of_absorbs (absorbLogical_absorbs h) hv
    · exact of_absorbs (absorbStochastic_absorbs h) hv
  rcases hkind with rfl | rfl <;> cases hreference

end Resolve

/-! ## Compilation -/

section Compile

variable {p valid unlinked expanded q : Program} {data : List (String × Datum)} {tally : Tally}
  {s t : State}

/-- Up to emission, a compilation that fails with an internal fault does so in resolution. -/
theorem passing_fails (p : Program) (hs : s.Seeded) :
    FailsOnly (Fault.Concerns p.Misplaces) (passing Pass.all p s).1 := by
  refine FailsOnly.run_bind (RunFailsOnly.lift (FailsOnly.map (Stmt.validateAll_fails _)) s) ?_
  intro valid u hvalidation
  obtain ⟨hvalid, rfl⟩ := Prod.mk.inj hvalidation
  refine FailsOnly.run_bind (RunFailsOnly.lift (FailsOnly.map (Stmt.unlinkAll_fails _)) s) ?_
  intro unlinked u hlinks
  obtain ⟨hunlink, rfl⟩ := Prod.mk.inj hlinks
  refine FailsOnly.run_bind
    (RunFailsOnly.lift (FailsOnly.map (Stmt.expandSpecialAll_fails _ _)) s) ?_
  intro expanded u hspecial
  obtain ⟨hexpand, rfl⟩ := Prod.mk.inj hspecial
  have hnormal := p.only_of_normal hvalid hunlink hexpand
  refine FailsOnly.run_bind (((Program.resolve_fails hnormal).bind fun _ => .pure _) s) ?_
  intro q t hresolution
  obtain ⟨⟨q', tally⟩, _, hresolve, h⟩ := run_bind_eq_ok.1 hresolution
  obtain ⟨rfl, rfl⟩ := run_pure_eq_ok.1 h
  obtain ⟨hkeys, hlogical⟩ := logicalOnly_of_resolve hs hnormal hresolve
  refine FailsOnly.run_bind ?_ fun _ _ _ => .ok _
  rw [Pass.run_emission]
  have hemit := State.emit_fails hkeys hlogical
  cases hnodes : t.emit with
  | ok nodes => exact .ok _
  | error e => exact .error (hemit e hnodes)

theorem compile_fails (p : Program) (data : List (String × Datum)) :
    FailsOnly (Fault.Concerns p.Misplaces) (compile p data) := by
  have hcompiling : FailsOnly (Fault.Concerns p.Misplaces) (compiling p data .empty).1 :=
    (State.seed_fails data .empty).run_bind fun _ s hseed =>
      passing_fails p (State.seeded_of_seed hseed)
  rw [compile_eq]
  rcases hend : compiling p data .empty with ⟨e | q, t⟩
  · exact .error (hcompiling e (by rw [hend]))
  · refine FailsOnly.bind ?_ fun nodes => .ok _
    unfold State.emitted
    split
    · exact .ok _
    · exact .error nofun

/-- An internal fault of a compilation is about a range without a step or a whole axis that stands
on a right-hand side of the program outside of index positions. Where a compilation returns, no
such form is left in the definitions that the program has come to. -/
theorem compile_internal (p : Program) (data : List (String × Datum)) :
    (∀ f, compile p data = .error (.internal f) → p.Misplaces f.kind) ∧
      ∀ c, compile p data = .ok c → ∀ k, ¬ c.program.Misplaces k := by
  refine ⟨fun f h => compile_fails p data _ h f rfl, fun c h => ?_⟩
  obtain ⟨stages⟩ := compile_stages h
  have hcompiled := (consistent_of_compile h).compiled
  rw [stages.state] at hcompiled
  exact not_misplaces_of_resolve (State.seeded_of_seed stages.seed).wellFormed stages.resolve
    hcompiled stages.emit

end Compile

/-- Defines a variable to be a range. -/
def ranging : Program :=
  ⟨[.assign (.name "y") (.range (.literal (.int 1) 0) (.literal (.int 2) 0) none) none], none⟩

/-- The state in which the range is the rule of the variable. -/
def rangingState : State :=
  { State.empty with
    logical := ⟨[("y", .range (.literal (.int 1) 0) (.literal (.int 2) 0) none)]⟩ }

theorem resolve_ranging :
    ranging.resolve .empty = (.ok (ranging, ⟨0, 0, 1, 0⟩), rangingState) :=
  Program.resolve_of_absorbed (n := 1) rfl

theorem compile_ranging : compile ranging [] =
    .error (.internal (.range (.range (.literal (.int 1) 0) (.literal (.int 2) 0) none))) := by
  rw [compile_of_resolved rfl rfl rfl rfl resolve_ranging]
  rfl

theorem compile_internal_ranging :
    (∃ f, compile ranging [] = .error (.internal f) ∧ ranging.Misplaces f.kind) ∧
      ∃ c, compile hierarchical [("y", .number (.truth true))] = .ok c ∧
        ∀ k, ¬ c.program.Misplaces k := by
  obtain ⟨c, hc, -⟩ := compile_hierarchical
  exact ⟨⟨_, compile_ranging, (compile_internal ranging []).1 _ compile_ranging⟩,
    c, hc, (compile_internal hierarchical _).2 c hc⟩

/-- A program that is read can fail to be compiled because of an internal fault. -/
theorem compile_ranging_refused : ¬ ∀ (text : String) (p : Program) (data : List (String × Datum))
    (f : InternalProblem), Program.parse "model.sexpr" 0 text = .ok p →
      compile p data ≠ .error (.internal f) := by
  intro claim
  have hparse : Program.parse "model.sexpr" 0 "(model (= y (range 1 2)))" = .ok ranging := by
    with_unfolding_all rfl
  exact claim _ ranging [] _ hparse compile_ranging

end PlateModel
