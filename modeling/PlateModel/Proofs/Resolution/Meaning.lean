import PlateModel.Proofs.Evaluation.Formula
import PlateModel.Proofs.Resolution.Order
import PlateModel.Proofs.Table
import PlateModel.State.Basic

/-!
# Partial evaluation keeps the meaning of formulas

Values of names agree with a state if every name that data bind has the datum as its value, and
every other name with a rule the value of its rule. Cyclic rules are no exception: all that counts
is that the values solve them. Replacing names by their definitions then keeps the value of a
formula, or the way in which it has none, in every single round; so it makes no difference after how
many rounds, or for which reason, partial evaluation stops.

* `Agrees`: values of names that agree with definitions.
* `Outcome.expr?`: an outcome as an expression.
* `eval_outcome`: a formula and its outcome have the same value.
-/

namespace PlateModel

/-- Values of names as an environment. -/
def Environment.ofNumbers (ρ : String → Option Number) : Environment := fun x => (ρ x).map .number

/-- Values of names that agree with definitions. -/
structure Agrees (ρ : String → Option Number) (d : Definitions) : Prop where
  data : ∀ {x v}, d.data.get? x = some v → ρ x = some v
  rule : ∀ {y rhs}, d.data.get? y = none → d.logical.get? y = some rhs →
    ∃ v, rhs.eval (.ofNumbers ρ) = .ok (.number v) ∧ ρ y = some v

/-- An outcome as an expression, if it is no array. -/
def Outcome.expr? : Outcome → Option Expr
  | constant (.number v) => some (.ofNumber v)
  | constant _ => none
  | symbol x => some (.name x)
  | residual e => some e

namespace Definitions

variable {d : Definitions} {ρ : String → Option Number}

/-- The expression for a defined name is a formula with the value of the name. -/
theorem eval_mapping (hrules : ∀ {y rhs}, d.logical.get? y = some rhs → rhs.IsFormula)
    (hρ : Agrees ρ d) (x : String) (rhs : Expr) (h : d.mapping.lookup x = some rhs) :
    rhs.IsFormula ∧ rhs.eval (.ofNumbers ρ) = (Expr.name x).eval (.ofNumbers ρ) := by
  rw [lookup_mapping] at h
  cases hd : d.data.get? x with
  | some v =>
    rw [hd] at h
    cases h
    refine ⟨.literal v 0, ?_⟩
    simp only [Expr.ofNumber, Expr.eval, Environment.ofNumbers, hρ.data hd, Option.map_some]
  | none =>
    rw [hd] at h
    have hx : d.logical.get? x = some rhs := h
    obtain ⟨v, hv, hx'⟩ := hρ.rule hd hx
    refine ⟨hrules hx, ?_⟩
    simp only [hv, Expr.eval, Environment.ofNumbers, hx', Option.map_some]

/-- No number of rounds changes the value of a formula. -/
theorem eval_settle {m : Mapping} {env : Environment}
    (hm : ∀ x rhs, m.lookup x = some rhs → rhs.IsFormula ∧ rhs.eval env = (Expr.name x).eval env) :
    ∀ (n : Nat) (seen : List Expr) {e : Expr}, e.IsFormula →
      ∃ r, settle m n seen e = .ok r ∧ r.IsFormula ∧ r.eval env = e.eval env
  | 0, _, e, he => ⟨e, rfl, he, rfl⟩
  | n + 1, seen, e, he => by
    rcases he.constant? with ⟨v, k, rfl⟩ | hnone
    · exact ⟨_, rfl, he, rfl⟩
    · obtain ⟨hsub, heval⟩ := he.substitute hm
      obtain ⟨⟨next, k⟩, hfold, hnext, hvalue⟩ := hsub.fold
      have same : next.eval env = e.eval env := (hvalue env).trans heval
      have hreplaced : replaced m e = .ok next := by
        simp only [replaced, hfold]; rfl
      simp only [settle, hnone, hreplaced, bind, Except.bind, Option.isSome_none,
        Bool.false_eq_true, if_false]
      split
      · exact ⟨e, rfl, he, rfl⟩
      · obtain ⟨r, hr, hformula, h⟩ := eval_settle hm n (next :: seen) hnext
        exact ⟨r, hr, hformula, h.trans same⟩

/-- A formula has an outcome, and the outcome is a formula with the same value. -/
theorem eval_outcome (hrules : ∀ {y rhs}, d.logical.get? y = some rhs → rhs.IsFormula)
    (hρ : Agrees ρ d) {e : Expr} (he : e.IsFormula) :
    ∃ o r, d.outcome e = .ok o ∧ o.expr? = some r ∧ r.IsFormula ∧
      r.eval (.ofNumbers ρ) = e.eval (.ofNumbers ρ) := by
  obtain ⟨⟨a, k⟩, ha, hfa, eqa⟩ := he.fold
  obtain ⟨r, hr, hfr, eqr⟩ := eval_settle (eval_mapping hrules hρ) d.rounds [a] hfa
  have same : r.eval (.ofNumbers ρ) = e.eval (.ofNumbers ρ) := eqr.trans (eqa _)
  simp only [outcome, ha, hr, bind, Except.bind]
  rcases hfr.constant? with ⟨v, m, rfl⟩ | hnone
  · exact ⟨_, .ofNumber v, rfl, rfl, .literal v 0, same⟩
  · rw [hnone]
    cases hfr with
    | name x => exact ⟨_, _, rfl, rfl, .name x, same⟩
    | literal v m => exact ⟨_, _, rfl, rfl, .literal v m, same⟩
    | unary op l h => exact ⟨_, _, rfl, rfl, .unary op l h, same⟩
    | binary op l h k => exact ⟨_, _, rfl, rfl, .binary op l h k, same⟩

/-- A formula holds no array references, so lowering leaves it and the registry alone. -/
theorem lower_formula (d : Definitions) {e : Expr} (he : e.IsFormula) (r : Registry) :
    d.lower e r = (.ok e, r) := by
  induction he with
  | literal | name => simp only [lower]; rfl
  | @unary op a l _ iha =>
    have args : d.lowerAll [a] r = (.ok [a], r) := by
      simp only [lowerAll]
      rw [run_bind_of_ok iha]
      rfl
    simp only [lower]
    rw [run_bind_of_ok args]
    rfl
  | @binary op a b l _ _ iha ihb =>
    have args : d.lowerAll [a, b] r = (.ok [a, b], r) := by
      simp only [lowerAll]
      rw [run_bind_of_ok iha, run_bind_of_ok (t := r) (a := [b])]
      · rfl
      · rw [run_bind_of_ok ihb]
        rfl
    simp only [lower]
    rw [run_bind_of_ok args]
    rfl

end Definitions

/-- Partial evaluation keeps the meaning of formulas: what a formula comes to in a state whose rules
are formulas has the same value as the formula, or fails in the same way, whenever the values of the
names agree with the state; and both can be compiled. -/
theorem eval_resolve (s : State) (ρ : String → Option Number) {e : Expr}
    (hrules : ∀ y rhs, s.logical.get? y = some rhs → rhs.IsFormula)
    (hρ : Agrees ρ s.toDefinitions) (he : e.IsFormula) :
    ∃ o e', s.toDefinitions.resolve e s.registry = (.ok o, s.registry) ∧ o.expr? = some e' ∧
      e.checkEvaluable = .ok () ∧ e'.checkEvaluable = .ok () ∧
      e'.eval (.ofNumbers ρ) = e.eval (.ofNumbers ρ) := by
  obtain ⟨o, e', ho, hexpr, hformula, same⟩ := Definitions.eval_outcome (hrules _ _) hρ he
  have hresolve : s.toDefinitions.resolve e s.registry = (.ok o, s.registry) := by
    unfold Definitions.resolve
    rw [run_bind_of_ok (s.toDefinitions.lower_formula he s.registry)]
    show (liftM (orFault (s.toDefinitions.outcome e)) : Referring Outcome) s.registry = _
    rw [ho]
    rfl
  exact ⟨o, e', hresolve, hexpr, he.checkEvaluable, hformula.checkEvaluable, same⟩

/-- A datum `n`, two rules that refer to each other, and one that refers to the datum. -/
def tangledState : State :=
  { State.empty with
    data := ⟨[("n", .int 3)]⟩
    logical := ⟨[("x", .name "y"), ("y", .name "x"),
      ("z", .call "+" [.name "n", .ofNumber (.int 1)] none)]⟩ }

/-- Values of the names that solve the rules. -/
def tangledValues : String → Option Number :=
  (Assoc.mk [("n", .int 3), ("x", .int 7), ("y", .int 7), ("z", .int 4)]).get?

/-- The product of `z` and `x` keeps its value, though the rules of `x` are cyclic. -/
theorem eval_resolve_tangled :
    (∀ y rhs, tangledState.logical.get? y = some rhs → rhs.IsFormula) ∧
      Agrees tangledValues tangledState.toDefinitions ∧
      ∃ o e', tangledState.toDefinitions.resolve (.call "*" [.name "z", .name "x"] none)
          tangledState.registry = (.ok o, tangledState.registry) ∧ o.expr? = some e' ∧
        e'.eval (.ofNumbers tangledValues) = .ok (.number (.int 28)) := by
  have rules (y : String) (rhs : Expr) (h : tangledState.logical.get? y = some rhs) :
      rhs.IsFormula ∧ ∃ v, rhs.eval (.ofNumbers tangledValues) = .ok (.number v) ∧
        tangledValues y = some v := by
    have hmem := Assoc.mem_of_get? h
    simp only [tangledState, List.mem_cons, Prod.mk.injEq, List.not_mem_nil, or_false] at hmem
    rcases hmem with ⟨rfl, rfl⟩ | ⟨rfl, rfl⟩ | ⟨rfl, rfl⟩
    · exact ⟨.name "y", .int 7, rfl, rfl⟩
    · exact ⟨.name "x", .int 7, rfl, rfl⟩
    · exact ⟨.binary .add none (.name "n") (.literal _ _), .int 4, rfl, rfl⟩
  have agrees : Agrees tangledValues tangledState.toDefinitions := by
    refine ⟨fun {x v} h => ?_, fun _ h => (rules _ _ h).2⟩
    have hmem := Assoc.mem_of_get? h
    simp only [tangledState, List.mem_cons, Prod.mk.injEq, List.not_mem_nil, or_false] at hmem
    obtain ⟨rfl, rfl⟩ := hmem
    rfl
  obtain ⟨o, e', ho, he', -, -, same⟩ := eval_resolve tangledState tangledValues
    (fun y rhs h => (rules y rhs h).1) agrees (.binary .mul none (.name "z") (.name "x"))
  exact ⟨fun y rhs h => (rules y rhs h).1, agrees, o, e', ho, he', same⟩

end PlateModel
