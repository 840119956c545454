import PlateModel.Expansion.Resolve
import PlateModel.Proofs.Expansion.Absorption
import PlateModel.Proofs.Expansion.Decisions
import PlateModel.Proofs.Model.Substitution

/-!
# The rounds of resolution

A run is a sequence of steps, each of which unrolls loops, decides conditionals or absorbs
definitions; in the last round all three change nothing. Unrolling and deciding only refer to
arrays, and absorbing adds rules.

* `Step`, `Rounds`: a step, and the steps of a run.
* `rounds_of_run`, `resolve_eq_ok`: a run that returns has gone through such steps.
* `Step.grows`, `Rounds.grows`: they add rules and let arrays grow.
-/

namespace PlateModel

open Compiling

namespace Stmt

/-- The arrays of a statement are in `K`. -/
def RefersIn (K : String → Prop) : Stmt → Prop :=
  Every (fun e => Definitions.RefersIn K e.references) fun e => Definitions.RefersIn K e.references

/-- The arrays of some statements are in `K`. -/
def RefersInAll (K : String → Prop) : List Stmt → Prop :=
  EveryOfAll (fun e => Definitions.RefersIn K e.references)
    fun e => Definitions.RefersIn K e.references

theorem refersInAll_any (ss : List Stmt) : RefersInAll (fun _ => True) ss :=
  everyOfAll_of_forall (fun _ => Definitions.grows_any) (fun _ => Definitions.grows_any) ss

theorem refersIn_any (s : Stmt) : RefersIn (fun _ => True) s :=
  every_of_forall (fun _ => Definitions.grows_any) (fun _ => Definitions.grows_any) s

end Stmt

/-- Literals in the place of names bring no arrays. -/
theorem Definitions.RefersIn.substitute {K : String → Prop} {m : Mapping} {e : Expr}
    (hm : m.Literal) (h : RefersIn K e.references) : RefersIn K (e.substitute m).references := by
  intro x is hx
  rw [Expr.references_substitute hm] at hx
  obtain ⟨⟨base, js⟩, hr, heq⟩ := List.mem_map.1 hx
  have hbase : base.substitute m = .name x := congrArg Prod.fst heq
  cases base with
  | name y =>
    rcases Expr.substitute_name hm y with h' | ⟨v, k, h'⟩
    · rw [h'] at hbase
      cases hbase
      exact h hr
    · rw [h'] at hbase
      cases hbase
  | _ => cases hbase

variable {K : String → Prop}

/-! ## Unrolling and deciding -/

mutual

theorem unroll_refers {env : Mapping} (henv : env.Literal) : ∀ {s : Stmt}, s.RefersIn K →
    Refers K (unroll env s)
  | .assign .., _ | .sample .., _ | .branch .., _ => .pure _
  | .loop i lower upper body l, h => by
    unfold unroll
    refine (loopBounds_refers l (h.1.substitute henv) (h.2.1.substitute henv)).bind fun bounds => ?_
    rcases bounds with _ | ⟨a, b⟩
    · exact .pure _
    · refine (Refers.mapM fun k _ => ?_).bind fun turns => .pure _
      exact unrollAll_refers (henv.cons i (.int k)) h.2.2

theorem unrollAll_refers {env : Mapping} (henv : env.Literal) : ∀ {ss : List Stmt},
    Stmt.RefersInAll K ss → Refers K (unrollAll env ss)
  | [], _ => .pure _
  | s :: rest, h => by
    unfold unrollAll
    refine (unroll_refers henv h.1).bind fun _ => ?_
    exact (unrollAll_refers henv h.2).bind fun _ => .pure _

end

mutual

theorem decideIn_refers : ∀ {s : Stmt}, s.RefersIn K → Refers K (decideIn s)
  | .assign .., _ | .sample .., _ | .loop .., _ => .pure _
  | .branch condition body l, h => by
    unfold decideIn
    refine (guardValue_refers l h.1).bind fun value => ?_
    rcases value with _ | _ | _
    · exact .pure _
    · exact .pure _
    · exact (decideAll_refers h.2).bind fun _ => .pure _

theorem decideAll_refers : ∀ {ss : List Stmt}, Stmt.RefersInAll K ss → Refers K (decideAll ss)
  | [], _ => .pure _
  | s :: rest, h => by
    unfold decideAll
    refine (decideIn_refers h.1).bind fun _ => ?_
    exact (decideAll_refers h.2).bind fun _ => .pure _

end

theorem unrollAll_cons_eq_ok {env : Mapping} {st : Stmt} {rest ss : List Stmt} {n : Nat}
    {s t : State} : unrollAll env (st :: rest) s = (.ok (ss, n), t) ↔ ∃ us j u vs k,
      unroll env st s = (.ok (us, j), u) ∧ unrollAll env rest u = (.ok (vs, k), t) ∧
      ss = us ++ vs ∧ n = j + k := by
  rw [unrollAll]
  constructor
  · intro h
    obtain ⟨⟨us, j⟩, u, hu, h⟩ := run_bind_eq_ok.1 h
    obtain ⟨⟨vs, k⟩, v, hv, h⟩ := run_bind_eq_ok.1 h
    obtain ⟨hr, rfl⟩ := run_pure_eq_ok.1 h
    exact ⟨us, j, u, vs, k, hu, hv, congrArg Prod.fst hr, congrArg Prod.snd hr⟩
  · rintro ⟨us, j, u, vs, k, hu, hv, rfl, rfl⟩
    exact run_bind_eq_ok.2 ⟨_, u, hu, run_bind_eq_ok.2 ⟨_, t, hv, rfl⟩⟩

/-- A loop whose bounds are decided is replaced by its turns, any other stays. -/
theorem unroll_loop_eq_ok {env : Mapping} {i : String} {lower upper : Expr} {body ss : List Stmt}
    {l : Option Location} {n : Nat} {s t : State} :
    unroll env (.loop i lower upper body l) s = (.ok (ss, n), t) ↔
      (loopBounds (lower.substitute env) (upper.substitute env) l s = (.ok none, t) ∧
        ss = [(Stmt.loop i lower upper body l).substitute env] ∧ n = 0) ∨
      ∃ a b u ts,
        loopBounds (lower.substitute env) (upper.substitute env) l s = (.ok (some (a, b)), u) ∧
        (integers a b).mapM (fun k => unrollAll ((i, .ofNumber (.int k)) :: env) body) u =
          (.ok ts, t) ∧ ss = ts.flatMap (·.1) ∧ n = ts.foldl (fun n turn => n + turn.2) 0 + 1 := by
  unfold unroll
  constructor
  · intro h
    obtain ⟨bounds, u, hu, h⟩ := run_bind_eq_ok.1 h
    rcases bounds with _ | ⟨a, b⟩
    · obtain ⟨hr, rfl⟩ := run_pure_eq_ok.1 h
      exact .inl ⟨hu, congrArg Prod.fst hr, congrArg Prod.snd hr⟩
    · obtain ⟨ts, v, hts, h⟩ := run_bind_eq_ok.1 h
      obtain ⟨hr, rfl⟩ := run_pure_eq_ok.1 h
      exact .inr ⟨a, b, u, ts, hu, hts, congrArg Prod.fst hr, congrArg Prod.snd hr⟩
  · rintro (⟨hu, rfl, rfl⟩ | ⟨a, b, u, ts, hu, hts, rfl, rfl⟩)
    · exact run_bind_eq_ok.2 ⟨none, t, hu, rfl⟩
    · exact run_bind_eq_ok.2 ⟨some (a, b), u, hu, run_bind_eq_ok.2 ⟨ts, t, hts, rfl⟩⟩

theorem decideAll_cons_eq_ok {st : Stmt} {rest ss : List Stmt} {n : Nat} {s t : State} :
    decideAll (st :: rest) s = (.ok (ss, n), t) ↔ ∃ us j u vs k,
      decideIn st s = (.ok (us, j), u) ∧ decideAll rest u = (.ok (vs, k), t) ∧
      ss = us ++ vs ∧ n = j + k := by
  rw [decideAll]
  constructor
  · intro h
    obtain ⟨⟨us, j⟩, u, hu, h⟩ := run_bind_eq_ok.1 h
    obtain ⟨⟨vs, k⟩, v, hv, h⟩ := run_bind_eq_ok.1 h
    obtain ⟨hr, rfl⟩ := run_pure_eq_ok.1 h
    exact ⟨us, j, u, vs, k, hu, hv, congrArg Prod.fst hr, congrArg Prod.snd hr⟩
  · rintro ⟨us, j, u, vs, k, hu, hv, rfl, rfl⟩
    exact run_bind_eq_ok.2 ⟨_, u, hu, run_bind_eq_ok.2 ⟨_, t, hv, rfl⟩⟩

/-- A conditional whose guard is decided is replaced by its body or nothing, any other stays. -/
theorem decideIn_branch_eq_ok {condition : Expr} {body ss : List Stmt} {l : Option Location}
    {n : Nat} {s t : State} : decideIn (.branch condition body l) s = (.ok (ss, n), t) ↔
      (guardValue condition l s = (.ok none, t) ∧ ss = [.branch condition body l] ∧ n = 0) ∨
      (guardValue condition l s = (.ok (some false), t) ∧ ss = [] ∧ n = 1) ∨
      ∃ u m, guardValue condition l s = (.ok (some true), u) ∧
        decideAll body u = (.ok (ss, m), t) ∧ n = m + 1 := by
  unfold decideIn
  constructor
  · intro h
    obtain ⟨value, u, hu, h⟩ := run_bind_eq_ok.1 h
    rcases value with _ | _ | _
    · obtain ⟨hr, rfl⟩ := run_pure_eq_ok.1 h
      exact .inl ⟨hu, congrArg Prod.fst hr, congrArg Prod.snd hr⟩
    · obtain ⟨hr, rfl⟩ := run_pure_eq_ok.1 h
      exact .inr (.inl ⟨hu, congrArg Prod.fst hr, congrArg Prod.snd hr⟩)
    · obtain ⟨⟨us, m⟩, v, hv, h⟩ := run_bind_eq_ok.1 h
      obtain ⟨hr, rfl⟩ := run_pure_eq_ok.1 h
      cases congrArg Prod.fst hr
      exact .inr (.inr ⟨u, m, hu, hv, congrArg Prod.snd hr⟩)
  · rintro (⟨hu, rfl, rfl⟩ | ⟨hu, rfl, rfl⟩ | ⟨u, m, hu, hv, rfl⟩)
    · exact run_bind_eq_ok.2 ⟨none, t, hu, rfl⟩
    · exact run_bind_eq_ok.2 ⟨some false, t, hu, rfl⟩
    · exact run_bind_eq_ok.2 ⟨some true, u, hu, run_bind_eq_ok.2 ⟨_, t, hv, rfl⟩⟩

/-- Where no loop is unrolled, nothing changes but that names are replaced. -/
theorem unrollAll_eq_zero {env : Mapping} : ∀ {ss ss' : List Stmt} {s t : State},
    unrollAll env ss s = (.ok (ss', 0), t) → ss' = Stmt.substituteAll env ss
  | [], _, _, _, h => by cases h; rfl
  | st :: rest, ss', s, t, h => by
    obtain ⟨us, j, u, vs, k, hu, hv, rfl, hn⟩ := unrollAll_cons_eq_ok.1 h
    obtain ⟨rfl, rfl⟩ : j = 0 ∧ k = 0 := by omega
    rw [unrollAll_eq_zero hv, Stmt.substituteAll]
    have hus : us = [st.substitute env] := by
      cases st with
      | loop i lower upper body l =>
        rcases unroll_loop_eq_ok.1 hu with ⟨-, rfl, -⟩ | ⟨_, _, _, _, _, _, _, h⟩
        · rfl
        · omega
      | _ => cases hu; rfl
    rw [hus, List.singleton_append]

/-- Where no conditional is decided, nothing changes. -/
theorem decideAll_eq_zero : ∀ {ss ss' : List Stmt} {s t : State},
    decideAll ss s = (.ok (ss', 0), t) → ss' = ss
  | [], _, _, _, h => by cases h; rfl
  | st :: rest, ss', s, t, h => by
    obtain ⟨us, j, u, vs, k, hu, hv, rfl, hn⟩ := decideAll_cons_eq_ok.1 h
    obtain ⟨rfl, rfl⟩ : j = 0 ∧ k = 0 := by omega
    have hus : us = [st] := by
      cases st with
      | branch condition body l =>
        rcases decideIn_branch_eq_ok.1 hu with ⟨-, rfl, -⟩ | ⟨_, _, h⟩ | ⟨_, _, _, _, h⟩
        · rfl
        · omega
        · omega
      | _ => cases hu; rfl
    rw [hus, decideAll_eq_zero hv, List.singleton_append]

/-! ## What statements keep -/

theorem stable_refersIn : Stable fun e => Definitions.RefersIn K e.references :=
  fun _ _ hm h => h.substitute hm

section Keeps

variable {p q : Expr → Prop}

mutual

theorem unroll_every (hp : Stable p) (hq : Stable q) {env : Mapping} (henv : env.Literal) :
    ∀ {st : Stmt}, st.Every p q → Returns (unroll env st) fun r => Stmt.EveryOfAll p q r.1
  | .assign .., h | .sample .., h | .branch .., h =>
    Returns.pure ⟨Stmt.Every.substitute hp hq henv h, trivial⟩
  | .loop i lower upper body l, h => by
    unfold unroll
    refine (Returns.trivial _).bind fun bounds _ => ?_
    rcases bounds with _ | ⟨a, b⟩
    · exact Returns.pure ⟨Stmt.Every.substitute hp hq henv h, trivial⟩
    · refine (Returns.mapM (fun k => unrollAll_every hp hq (henv.cons i (.int k)) h.2.2) _).bind
        fun turns hturns => Returns.pure ?_
      rw [Stmt.everyOfAll_iff]
      intro st hst
      obtain ⟨turn, hturn, hst⟩ := List.mem_flatMap.1 hst
      exact Stmt.everyOfAll_iff.1 (hturns turn hturn) st hst

theorem unrollAll_every (hp : Stable p) (hq : Stable q) {env : Mapping} (henv : env.Literal) :
    ∀ {ss : List Stmt}, Stmt.EveryOfAll p q ss →
    Returns (unrollAll env ss) fun r => Stmt.EveryOfAll p q r.1
  | [], _ => Returns.pure trivial
  | st :: rest, h => by
    unfold unrollAll
    refine (unroll_every hp hq henv h.1).bind fun a ha => ?_
    refine (unrollAll_every hp hq henv h.2).bind fun b hb => Returns.pure ?_
    exact Stmt.everyOfAll_append.2 ⟨ha, hb⟩

end

mutual

theorem decideIn_every : ∀ {st : Stmt}, st.Every p q →
    Returns (decideIn st) fun r => Stmt.EveryOfAll p q r.1
  | .assign .., h | .sample .., h | .loop .., h => Returns.pure ⟨h, trivial⟩
  | .branch condition body l, h => by
    unfold decideIn
    refine (Returns.trivial _).bind fun value _ => ?_
    rcases value with _ | _ | _
    · exact Returns.pure ⟨h, trivial⟩
    · exact Returns.pure trivial
    · exact (decideAll_every h.2).bind fun r hr => Returns.pure hr

theorem decideAll_every : ∀ {ss : List Stmt}, Stmt.EveryOfAll p q ss →
    Returns (decideAll ss) fun r => Stmt.EveryOfAll p q r.1
  | [], _ => Returns.pure trivial
  | st :: rest, h => by
    unfold decideAll
    refine (decideIn_every h.1).bind fun a ha => ?_
    exact (decideAll_every h.2).bind fun b hb => Returns.pure (Stmt.everyOfAll_append.2 ⟨ha, hb⟩)

end

end Keeps

namespace Resolution

/-! ## Steps -/

/-- One step of a round: what is left before and after it, and how much it changes. -/
inductive Step (w : Resolution) (s : State) : Resolution → Nat → State → Prop
  | unroll {w' : Resolution} {n : Nat} {t : State} (h : w.unrollLoops s = (.ok (w', n), t)) :
    Step w s w' n t
  | decide {w' : Resolution} {n : Nat} {t : State} (h : w.decideConditionals s = (.ok (w', n), t)) :
    Step w s w' n t
  | absorb {w' : Resolution} {n : Nat} {t : State} (h : w.absorbDefinitions s = (.ok (w', n), t)) :
    Step w s w' n t

/-- The steps of a run, up to a round that changes nothing. -/
inductive Rounds : Resolution → State → Resolution → State → Prop
  | step {w₁ w₂ w₃ : Resolution} {n : Nat} {s₁ s₂ s₃ : State} (h : Step w₁ s₁ w₂ n s₂)
    (rest : Rounds w₂ s₂ w₃ s₃) : Rounds w₁ s₁ w₃ s₃
  | last {w w₁ w₂ w' : Resolution} {s s₁ s₂ s' : State}
    (hunroll : w.unrollLoops s = (.ok (w₁, 0), s₁))
    (hdecide : w.decideConditionals s₁ = (.ok (w₂, 0), s₂))
    (habsorb : w.absorbDefinitions s₂ = (.ok (w', 0), s')) : Rounds w s w' s'

theorem unrollLoops_eq_ok {w w' : Resolution} {n : Nat} {s t : State} :
    w.unrollLoops s = (.ok (w', n), t) ↔ ∃ ss, unrollAll [] w.remaining s = (.ok (ss, n), t) ∧
      w' = { w with remaining := ss, tally.loopsUnrolled := w.tally.loopsUnrolled + n } := by
  unfold unrollLoops
  rw [run_bind_eq_ok]
  constructor
  · rintro ⟨⟨ss, m⟩, u, hu, h⟩
    cases h
    exact ⟨ss, hu, rfl⟩
  · rintro ⟨ss, h, rfl⟩
    exact ⟨(ss, n), t, h, rfl⟩

theorem decideConditionals_eq_ok {w w' : Resolution} {n : Nat} {s t : State} :
    w.decideConditionals s = (.ok (w', n), t) ↔ ∃ ss, decideAll w.remaining s = (.ok (ss, n), t) ∧
      w' = { w with
        remaining := ss, tally.conditionalsDecided := w.tally.conditionalsDecided + n } := by
  unfold decideConditionals
  rw [run_bind_eq_ok]
  constructor
  · rintro ⟨⟨ss, m⟩, u, hu, h⟩
    cases h
    exact ⟨ss, hu, rfl⟩
  · rintro ⟨ss, h, rfl⟩
    exact ⟨(ss, n), t, h, rfl⟩

theorem attempt_eq_ok {f : Stmt → Compiling Absorption} {w : Resolution}
    {results : List (Stmt × Absorption)} {s t : State} :
    w.attempt f s = (.ok results, t) ↔ ∃ as, w.remaining.mapM f s = (.ok as, t) ∧
      results = w.remaining.zip as := by
  unfold attempt
  rw [run_bind_eq_ok]
  constructor
  · rintro ⟨as, u, hu, h⟩
    cases h
    exact ⟨as, hu, rfl⟩
  · rintro ⟨as, h, rfl⟩
    exact ⟨as, t, h, rfl⟩

/-- Each result of an attempt is what a statement has come to at some state. -/
theorem exists_step_of_attempt {f : Stmt → Compiling Absorption} {w : Resolution}
    {results : List (Stmt × Absorption)} {s t : State} (h : w.attempt f s = (.ok results, t)) :
    ∀ r ∈ results, ∃ u v, f r.1 u = (.ok r.2, v) := by
  obtain ⟨as, has, rfl⟩ := attempt_eq_ok.1 h
  intro r hr
  -- nothing has to be known about the order of the states
  obtain ⟨u, v, -, hstep, -⟩ := @Advances.mapM_steps _ _ _ _ (fun _ _ => True) _
    (fun _ => trivial) (fun _ _ => trivial) _ _ _ _ (fun _ _ _ _ _ _ => trivial) has r hr
  exact ⟨u, v, hstep⟩

theorem absorbDefinitions_eq_ok {w w' : Resolution} {n : Nat} {s t : State} :
    w.absorbDefinitions s = (.ok (w', n), t) ↔ ∃ u results,
      w.remaining.forM registerTarget s = (.ok (), u) ∧
      w.attempt absorbLogical u = (.ok results, t) ∧ n = results.countP isNew ∧
      w' = { ({ w with postponed := [] } : Resolution).record results with
        tally.logicalAdded := w.tally.logicalAdded + n } := by
  unfold absorbDefinitions
  constructor
  · intro h
    obtain ⟨⟨⟩, u, hu, h⟩ := run_bind_eq_ok.1 h
    obtain ⟨results, v, hv, h⟩ := run_bind_eq_ok.1 h
    cases h
    exact ⟨u, results, hu, hv, rfl, rfl⟩
  · rintro ⟨u, results, hu, hv, rfl, rfl⟩
    exact run_bind_eq_ok.2 ⟨(), u, hu, run_bind_eq_ok.2 ⟨results, t, hv, rfl⟩⟩

theorem unrollLoops_eq_zero {w w' : Resolution} {s t : State}
    (h : w.unrollLoops s = (.ok (w', 0), t)) : w' = w := by
  obtain ⟨ss, hss, rfl⟩ := unrollLoops_eq_ok.1 h
  rw [unrollAll_eq_zero hss, Stmt.substituteAll_nil]
  rfl

theorem decideConditionals_eq_zero {w w' : Resolution} {s t : State}
    (h : w.decideConditionals s = (.ok (w', 0), t)) : w' = w := by
  obtain ⟨ss, hss, rfl⟩ := decideConditionals_eq_ok.1 h
  rw [decideAll_eq_zero hss]
  rfl

/-- A round ends with the first step that changes anything. -/
theorem round_eq_ok {w w' : Resolution} {n : Nat} {s t : State} :
    w.round s = (.ok (w', n), t) ↔
      (w.unrollLoops s = (.ok (w', n), t) ∧ n ≠ 0) ∨ ∃ w₁ s₁, w.unrollLoops s = (.ok (w₁, 0), s₁) ∧
      ((w.decideConditionals s₁ = (.ok (w', n), t) ∧ n ≠ 0) ∨
        ∃ w₂ s₂, w.decideConditionals s₁ = (.ok (w₂, 0), s₂) ∧
          w.absorbDefinitions s₂ = (.ok (w', n), t)) := by
  unfold round
  rw [run_bind_eq_ok]
  constructor
  · rintro ⟨⟨w₁, m⟩, s₁, h₁, h⟩
    dsimp only at h
    by_cases hm : m = 0
    · subst hm
      rw [if_neg (by simp)] at h
      obtain ⟨⟨w₂, m⟩, s₂, h₂, h⟩ := run_bind_eq_ok.1 h
      dsimp only at h
      by_cases hm : m = 0
      · subst hm
        rw [if_neg (by simp)] at h
        exact .inr ⟨w₁, s₁, h₁, .inr ⟨w₂, s₂, h₂, h⟩⟩
      · rw [if_pos hm] at h
        cases h
        exact .inr ⟨w₁, s₁, h₁, .inl ⟨h₂, hm⟩⟩
    · rw [if_pos hm] at h
      cases h
      exact .inl ⟨h₁, hm⟩
  · rintro (⟨h, hn⟩ | ⟨w₁, s₁, h₁, ⟨h, hn⟩ | ⟨w₂, s₂, h₂, h⟩⟩)
    · refine ⟨_, _, h, ?_⟩
      dsimp only
      rw [if_pos hn]
      rfl
    · refine ⟨_, _, h₁, ?_⟩
      dsimp only
      rw [if_neg (by simp), run_bind_of_ok h]
      dsimp only
      rw [if_pos hn]
      rfl
    · refine ⟨_, _, h₁, ?_⟩
      dsimp only
      rw [if_neg (by simp), run_bind_of_ok h₂]
      dsimp only
      rw [if_neg (by simp)]
      exact h

theorem attach_of_ok {α : Type} {P : α → Prop} {m : Compiling α} (hP : Returns m P) {s t : State}
    {a : α} (h : m s = (.ok a, t)) : attach m hP s = (.ok ⟨a, hP s a t h⟩, t) := by
  unfold attach
  split
  · next b t' hb =>
    obtain ⟨⟩ := h.symm.trans hb
    rfl
  · next e t' he => cases h.symm.trans he

theorem attach_of_error {α : Type} {P : α → Prop} {m : Compiling α} (hP : Returns m P)
    {s t : State} {e : Fault} (h : m s = (.error e, t)) : attach m hP s = (.error e, t) := by
  unfold attach
  split
  · next b t' hb => cases h.symm.trans hb
  · next e t' he =>
    obtain ⟨⟩ := h.symm.trans he
    rfl

/-- A run goes through a round, and if this changes anything, through another run. -/
theorem run_of_round {w next : Resolution} {n : Nat} {s t : State}
    (h : w.round s = (.ok (next, n), t)) :
    w.run s = if n = 0 then (.ok next, t) else next.run t := by
  rw [run, run_bind_of_ok (attach_of_ok w.round_progresses h)]
  dsimp only
  by_cases hn : n = 0
  · rw [dif_neg (not_not.2 hn), if_pos hn]
    rfl
  · rw [dif_pos hn, if_neg hn]

theorem run_of_round_error {w : Resolution} {s t : State} {e : Fault}
    (h : w.round s = (.error e, t)) : w.run s = (.error e, t) := by
  rw [run, run_bind_of_error (attach_of_error w.round_progresses h)]

/-- A run that returns has gone through steps up to a round that changes nothing. -/
theorem rounds_of_run {w w' : Resolution} {s t : State} (h : w.run s = (.ok w', t)) :
    Rounds w s w' t := by
  rcases hround : w.round s with ⟨e | ⟨next, n⟩, u⟩
  · rw [run_of_round_error hround] at h
    cases h
  · rw [run_of_round hround] at h
    have descends := w.round_progresses s (next, n) u hround
    by_cases hn : n = 0
    · subst hn
      rw [if_pos rfl] at h
      cases h
      rcases round_eq_ok.1 hround with ⟨_, h0⟩ | ⟨w₁, s₁, h₁, ⟨_, h0⟩ | ⟨w₂, s₂, h₂, h₃⟩⟩
      · exact absurd rfl h0
      · exact absurd rfl h0
      · exact .last h₁ h₂ h₃
    · rw [if_neg hn] at h
      have rest := rounds_of_run h
      rcases round_eq_ok.1 hround with ⟨h₁, -⟩ | ⟨w₁, s₁, h₁, ⟨h₂, -⟩ | ⟨w₂, s₂, h₂, h₃⟩⟩
      · exact .step (.unroll h₁) rest
      · obtain rfl := unrollLoops_eq_zero h₁
        exact .step (.unroll h₁) (.step (.decide h₂) rest)
      · obtain rfl := unrollLoops_eq_zero h₁
        obtain rfl := decideConditionals_eq_zero h₂
        exact .step (.unroll h₁) (.step (.decide h₂) (.step (.absorb h₃) rest))
termination_by WellFounded.wrap Below.wf (Stmt.heights w.remaining)
decreasing_by exact descends hn

/-! ## Growth -/

variable {w w' : Resolution} {n : Nat} {s s' : State}

/-- What is left after a step is made of what was left before. -/
theorem Step.every {p q : Expr → Prop} (hp : Stable p) (hq : Stable q) (h : Step w s w' n s')
    (hw : Stmt.EveryOfAll p q w.remaining) : Stmt.EveryOfAll p q w'.remaining := by
  cases h with
  | unroll h =>
    obtain ⟨ss, hss, rfl⟩ := unrollLoops_eq_ok.1 h
    exact unrollAll_every hp hq Mapping.literal_nil hw _ _ _ hss
  | decide h =>
    obtain ⟨ss, hss, rfl⟩ := decideConditionals_eq_ok.1 h
    exact decideAll_every hw _ _ _ hss
  | absorb h =>
    obtain ⟨u, results, -, hresults, -, rfl⟩ := absorbDefinitions_eq_ok.1 h
    have hfst := attempt_fst absorbLogical w _ _ _ hresults
    rw [Stmt.everyOfAll_iff] at hw ⊢
    intro st hst
    obtain ⟨r, hr, rfl⟩ := List.mem_map.1 hst
    refine hw _ ?_
    rw [← hfst]
    exact List.mem_map_of_mem (List.mem_filter.1 hr).1

theorem absorbDefinitions_refers (hw : Stmt.RefersInAll K w.remaining) :
    Refers K (w.remaining.forM registerTarget) :=
  Refers.forM fun _ hst => registerTarget_refers (Stmt.everyOfAll_iff.1 hw _ hst)

theorem attempt_grows {f : Stmt → Compiling Absorption} (hf : ∀ st ∈ w.remaining, Grows K (f st)) :
    Grows K (w.attempt f) := (Grows.mapM hf).bind fun _ => .pure _

/-- A step adds rules and lets arrays grow. -/
theorem Step.grows (h : Step w s w' n s') (hw : Stmt.RefersInAll K w.remaining)
    (hs : s.registry.WellFormed) : s.Grows K s' := by
  cases h with
  | unroll h =>
    obtain ⟨ss, hss, rfl⟩ := unrollLoops_eq_ok.1 h
    exact (unrollAll_refers Mapping.literal_nil hw).grows.of_eq hss hs
  | decide h =>
    obtain ⟨ss, hss, rfl⟩ := decideConditionals_eq_ok.1 h
    exact (decideAll_refers hw).grows.of_eq hss hs
  | absorb h =>
    obtain ⟨u, results, hu, hresults, -, rfl⟩ := absorbDefinitions_eq_ok.1 h
    have hsu := (absorbDefinitions_refers hw).grows.of_eq hu hs
    refine hsu.trans ((attempt_grows fun st hst => ?_).of_eq hresults hsu.registry.wellFormed)
    exact absorbLogical_grows (Stmt.everyOfAll_iff.1 hw st hst)

/-- What is left in the end is made of what was there. -/
theorem Rounds.every {p q : Expr → Prop} (hp : Stable p) (hq : Stable q) (h : Rounds w s w' s')
    (hw : Stmt.EveryOfAll p q w.remaining) : Stmt.EveryOfAll p q w'.remaining := by
  induction h with
  | step h _ ih => exact ih (h.every hp hq hw)
  | last _ _ habsorb => exact (Step.absorb habsorb).every hp hq hw

/-- The steps of a run add rules and let arrays grow. -/
theorem Rounds.grows (h : Rounds w s w' s') (hw : Stmt.RefersInAll K w.remaining)
    (hs : s.registry.WellFormed) : s.Grows K s' := by
  induction h with
  | step h _ ih =>
    have hstep := h.grows hw hs
    exact hstep.trans (ih (h.every stable_refersIn stable_refersIn hw) hstep.registry.wellFormed)
  | last hunroll hdecide habsorb =>
    have h₁ := (Step.unroll hunroll).grows hw hs
    have h₂ := (Step.decide hdecide).grows hw h₁.registry.wellFormed
    exact h₁.trans (h₂.trans ((Step.absorb habsorb).grows hw h₂.registry.wellFormed))

end Resolution

/-! ## Resolution -/

/-- Resolution that returns has gone through the steps of a run, then absorbed the stochastic
definitions, and nothing is left that could not be absorbed. -/
theorem Program.resolve_eq_ok {p q : Program} {tally : Tally} {s t : State}
    (h : p.resolve s = (.ok (q, tally), t)) : ∃ w u results,
      Resolution.Rounds (.start p.statements) s w u ∧
      w.attempt absorbStochastic u = (.ok results, t) ∧
      (w.record results).checkDone = .ok () ∧ q.statements = (w.record results).absorbed := by
  unfold resolve at h
  obtain ⟨w, u, hrun, h⟩ := run_bind_eq_ok.1 h
  obtain ⟨results, v, hresults, h⟩ := run_bind_eq_ok.1 h
  obtain ⟨⟨⟩, v', hcheck, h⟩ := run_bind_eq_ok.1 h
  rw [run_lift] at hcheck
  obtain ⟨hq, rfl⟩ := run_pure_eq_ok.1 h
  cases congrArg Prod.snd hcheck
  have hq := congrArg Prod.fst hq
  refine ⟨w, u, results, Resolution.rounds_of_run hrun, hresults, congrArg Prod.fst hcheck, ?_⟩
  exact congrArg Program.statements hq

end PlateModel
