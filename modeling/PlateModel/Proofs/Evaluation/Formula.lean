import PlateModel.Evaluation.Eval
import PlateModel.Evaluation.Generator
import PlateModel.Proofs.Computation
import PlateModel.Evaluation.Fold
import PlateModel.Model.Substitution

/-!
# Formulas

A formula consists of literals, names and operators with as many operands as they take. Operators
on numbers give a number, a complex number or a numerical failure. So folding a formula never
fails, and it keeps the value of the formula under every environment: a call whose value is a
number becomes that number, and any other call stays what it is.

* `Expr.IsFormula`: the formulas.
* `IsFormula.fold`: folding keeps formulas and their values.
* `IsFormula.substitute`: so does putting formulas in the place of names that have their values.
-/

namespace PlateModel

/-- An expression of literals, names and operators. -/
inductive Expr.IsFormula : Expr → Prop
  | literal (v : Number) (mark : Nat) : IsFormula (.literal v mark)
  | name (x : String) : IsFormula (.name x)
  | unary (op : UnaryOp) {a : Expr} (l : Option Location) (ha : IsFormula a) :
    IsFormula (.call op.symbol [a] l)
  | binary (op : BinaryOp) {a b : Expr} (l : Option Location) (ha : IsFormula a)
    (hb : IsFormula b) : IsFormula (.call op.symbol [a, b] l)

/-! ## Operators on numbers -/

@[simp] theorem Callee.of?_unary (op : UnaryOp) :
    Callee.of? op.symbol 1 = some (.operator (.unary op)) := by
  cases op <;> rfl

@[simp] theorem Callee.of?_binary (op : BinaryOp) :
    Callee.of? op.symbol 2 = some (.operator (.binary op)) := by
  cases op <;> rfl

/-- What an operator makes of numbers: a number, a complex number, or a numerical failure. -/
def NumericalResult : Except Failure Value → Prop
  | .ok (.number _) | .ok (.complex _) => True
  | .ok _ => False
  | .error e => e.isNumerical

theorem Complex.finite_error {z : Complex} {e : Failure} (h : z.finite = .error e) :
    e.isNumerical := by
  unfold Complex.finite at h
  split at h <;> cases h
  rfl

theorem Number.arith_error {f : Int → Int → Int} {g : Float → Float → Float} {m n : Number}
    {e : Failure} (h : Number.arith f g m n = .error e) : e.isNumerical := by
  unfold Number.arith at h
  split at h
  · cases h
  · split at h <;> cases h
    rfl

theorem Number.div_error {m n : Number} {e : Failure} (h : m.div n = .error e) :
    e.isNumerical := by
  unfold Number.div at h
  split at h
  · unfold divideInt at h
    split at h
    · cases h; rfl
    · dsimp only at h
      split at h <;> cases h
      rfl
  · split at h
    · split at h <;> cases h
      rfl
    · cases h; rfl

theorem Number.pow_error {m n : Number} {e : Failure} (h : m.pow n = .error e) :
    e.isNumerical := by
  unfold Number.pow at h
  split at h
  · cases h
  · split at h
    · unfold powFloat at h
      split at h
      · cases h; rfl
      · dsimp only at h
        split at h
        · cases hz : Complex.finite (Complex.ofPolar _ _) with
          | error e' =>
            rw [hz] at h
            cases h
            exact Complex.finite_error hz
          | ok z => rw [hz] at h; cases h
        · split at h <;> cases h
          rfl
    · cases h; rfl

theorem BinaryOp.onNumbers_error {op : BinaryOp} {m n : Number} {e : Failure}
    (h : op.onNumbers m n = .error e) : e.isNumerical := by
  have mapped {x : Except Failure Number} (h : x.map Sum.inl = (.error e : Except _ (_ ⊕ Complex)))
      (hx : ∀ e, x = .error e → e.isNumerical) : e.isNumerical := by
    cases x with
    | error e' => cases h; exact hx _ rfl
    | ok v => cases h
  cases op with
  | add | sub | mul => exact mapped h fun _ => Number.arith_error
  | div => exact mapped h fun _ => Number.div_error
  | pow => exact Number.pow_error h
  | _ => cases h; rfl

/-- Operators of two operands give numerical results of numbers. -/
theorem BinaryOp.apply_numbers (op : BinaryOp) (m n : Number) :
    NumericalResult (op.apply (.number m) (.number n)) := by
  have plain : NumericalResult (op.onPlain (.number m) (.number n)) := by
    simp only [onPlain]
    cases h : op.onNumbers m n with
    | error e => exact onNumbers_error h
    | ok r => cases r <;> trivial
  cases op with
  | add | sub | mul | div | pow => exact plain
  | eq | ne | lt | le | gt | ge => trivial
  | and | or =>
    simp only [apply, logical, Value.isTensor, Bool.or_self, Bool.false_eq_true, if_false]
    simp only [Value.isTrue, bind, Except.bind]
    split <;> trivial

/-- Operators of one operand give numerical results of numbers. -/
theorem UnaryOp.apply_number (op : UnaryOp) (n : Number) :
    NumericalResult (op.apply (.number n)) := by
  cases op <;> trivial

/-! ## Folding -/

namespace Expr

theorem constant?_literal (v : Number) (m : Nat) :
    (literal v m).constant? = .ok (some (.number v)) := rfl

theorem foldCall_of_no_constants {f : String} {args : List Expr} {l : Option Location}
    (h : constants? args = .ok none) : foldCall f args l = .ok (call f args l, 0) := by
  simp only [foldCall, h]

/-- A call of an operator on numbers becomes its value, or stays what it is. -/
theorem foldCall_of_numerical {f : String} (args : List Expr) {l : Option Location}
    {values : List Value} {op : Operator} (hargs : constants? args = .ok (some values))
    (hop : Callee.of? f args.length = some (.operator op))
    (hr : NumericalResult (Callee.apply (.operator op) values)) :
    (∃ v, Callee.apply (.operator op) values = .ok (.number v) ∧
      foldCall f args l = .ok (ofNumber v, 1)) ∨ foldCall f args l = .ok (call f args l, 0) := by
  simp only [foldCall, hargs, hop, Option.filter, Callee.isNumerical, if_true]
  cases h : Callee.apply (.operator op) values with
  | error e =>
    rw [h] at hr
    simp only [NumericalResult] at hr
    exact .inr (by simp only [hr, if_true])
  | ok v =>
    rw [h] at hr
    cases v with
    | number v => exact .inl ⟨v, rfl, rfl⟩
    | complex z => exact .inr rfl
    | _ => exact hr.elim

namespace IsFormula

/-- A formula is a literal, or no constant. -/
theorem constant? {e : Expr} (h : e.IsFormula) :
    (∃ v m, e = .literal v m) ∨ e.constant? = .ok none := by
  cases h with
  | literal v m => exact .inl ⟨v, m, rfl⟩
  | _ => exact .inr rfl

/-- Every formula can be compiled. -/
theorem checkEvaluable {e : Expr} (h : e.IsFormula) : e.checkEvaluable = .ok () := by
  induction h with
  | literal | name => rfl
  | unary op l ha iha =>
    simp only [Expr.checkEvaluable, checkAllEvaluable, iha, List.length_cons, List.length_nil,
      Nat.zero_add, Callee.of?_unary, Option.isSome_some, if_true]
  | binary op l ha hb iha ihb =>
    simp only [Expr.checkEvaluable, checkAllEvaluable, iha, ihb, List.length_cons, List.length_nil,
      Nat.zero_add, Nat.reduceAdd, Callee.of?_binary, Option.isSome_some, if_true]

/-- What folding makes of an expression: a formula with the same value in every environment. -/
def FoldsWell (e : Expr) : Prop :=
  ∃ r, e.fold = .ok r ∧ r.1.IsFormula ∧ ∀ env, r.1.eval env = e.eval env

theorem fold_unary {op : UnaryOp} {a : Expr} {l : Option Location} (iha : FoldsWell a) :
    FoldsWell (.call op.symbol [a] l) := by
  obtain ⟨⟨a', m⟩, ha, hfa, eqa⟩ := iha
  have same (env : Environment) :
      (Expr.call op.symbol [a'] l).eval env = (Expr.call op.symbol [a] l).eval env := by
    simp only [eval, evalAll, eqa]
  have hfold : (Expr.call op.symbol [a] l).fold =
      (foldCall op.symbol [a'] l).map fun r => (r.1, m + 0 + r.2) := by
    simp only [fold, foldAll, ha]
    rfl
  rcases hfa.constant? with ⟨v, k, rfl⟩ | hnone
  · rcases foldCall_of_numerical (f := op.symbol) [.literal v k] (l := l) rfl
      (Callee.of?_unary op) (op.apply_number v) with ⟨w, hw, h⟩ | h
    · refine ⟨_, by rw [hfold, h]; rfl, .literal w 0, fun env => ?_⟩
      rw [← same]
      simp only [eval, evalAll, Except.map, List.length_cons, List.length_nil, Nat.zero_add,
        Callee.of?_unary, hw, ofNumber]
    · exact ⟨_, by rw [hfold, h]; rfl, .unary op l hfa, same⟩
  · have h : foldCall op.symbol [a'] l = .ok (call op.symbol [a'] l, 0) :=
      foldCall_of_no_constants (by simp only [constants?, hnone]; rfl)
    exact ⟨_, by rw [hfold, h]; rfl, .unary op l hfa, same⟩

theorem fold_binary {op : BinaryOp} {a b : Expr} {l : Option Location} (iha : FoldsWell a)
    (ihb : FoldsWell b) : FoldsWell (.call op.symbol [a, b] l) := by
  obtain ⟨⟨a', m⟩, ha, hfa, eqa⟩ := iha
  obtain ⟨⟨b', n⟩, hb, hfb, eqb⟩ := ihb
  have same (env : Environment) :
      (Expr.call op.symbol [a', b'] l).eval env = (Expr.call op.symbol [a, b] l).eval env := by
    simp only [eval, evalAll, eqa, eqb]
  have hfold : (Expr.call op.symbol [a, b] l).fold =
      (foldCall op.symbol [a', b'] l).map fun r => (r.1, m + (n + 0) + r.2) := by
    simp only [fold, foldAll, ha, hb]
    rfl
  have unfolded (hnone : constants? [a', b'] = .ok none) :
      FoldsWell (.call op.symbol [a, b] l) :=
    ⟨_, by rw [hfold, foldCall_of_no_constants hnone]; rfl, .binary op l hfa hfb, same⟩
  rcases hfa.constant? with ⟨v, k, rfl⟩ | hna
  · rcases hfb.constant? with ⟨w, j, rfl⟩ | hnb
    · rcases foldCall_of_numerical (f := op.symbol) [.literal v k, .literal w j] (l := l)
        rfl (Callee.of?_binary op) (op.apply_numbers v w) with ⟨x, hx, h⟩ | h
      · refine ⟨_, by rw [hfold, h]; rfl, .literal x 0, fun env => ?_⟩
        rw [← same]
        simp only [eval, evalAll, Except.map, List.length_cons, List.length_nil, Nat.zero_add,
          Nat.reduceAdd, Callee.of?_binary, hx, ofNumber]
      · exact ⟨_, by rw [hfold, h]; rfl, .binary op l hfa hfb, same⟩
    · exact unfolded (by simp only [constants?, constant?_literal, hnb]; rfl)
  · refine unfolded ?_
    rcases hfb.constant? with ⟨w, j, rfl⟩ | hnb
    · simp only [constants?, hna]; rfl
    · simp only [constants?, hna, hnb]; rfl

/-- Folding keeps formulas and their values. -/
theorem fold {e : Expr} (h : e.IsFormula) : FoldsWell e := by
  induction h with
  | literal v m => exact ⟨_, rfl, .literal v m, fun _ => rfl⟩
  | name x => exact ⟨_, rfl, .name x, fun _ => rfl⟩
  | unary op l _ iha => exact fold_unary iha
  | binary op l _ _ iha ihb => exact fold_binary iha ihb

/-! ## Substitution -/

/-- Putting formulas in the place of names that have their values keeps formulas and their
values. -/
theorem substitute {m : Mapping} {env : Environment}
    (hm : ∀ x rhs, m.lookup x = some rhs → rhs.IsFormula ∧ rhs.eval env = (Expr.name x).eval env)
    {e : Expr} (h : e.IsFormula) :
    (e.substitute m).IsFormula ∧ (e.substitute m).eval env = e.eval env := by
  induction h with
  | literal v k => exact ⟨.literal v k, rfl⟩
  | name x =>
    simp only [Expr.substitute]
    cases hx : m.lookup x with
    | none => exact ⟨.name x, rfl⟩
    | some rhs => exact hm x rhs hx
  | unary op l _ iha =>
    refine ⟨.unary op l iha.1, ?_⟩
    simp only [Expr.substitute, substituteAll, eval, evalAll, iha.2]
  | binary op l _ _ iha ihb =>
    refine ⟨.binary op l iha.1 ihb.1, ?_⟩
    simp only [Expr.substitute, substituteAll, eval, evalAll, iha.2, ihb.2]

end IsFormula

end Expr

end PlateModel
