import Mathlib.Data.List.Forall2
import PlateModel.Proofs.Evaluation.Formula
import PlateModel.Proofs.Evaluation.Plain
import PlateModel.Proofs.Value.Uniform

/-!
# Expressions whose cells do no harm

Evaluation passes the cells that functions return on to the calls around them, while plain values
take their place when constants are folded. The two agree if every call is indifferent to this: it
is given plain values; or cells of numbers on which an operator is uniform; or a cell in the place
where a function reads an array.

* `Callee.Indifferent`: arguments of which a call makes the same as of plain ones.
* `Expr.Sober`: all calls in an expression are indifferent to their arguments.
* `Expr.Sober.eval`: then its value is the value in plain values, up to cells.
* `Expr.IsFormula.numerical`: formulas over plain numbers are of this kind.
-/

namespace PlateModel

open Value

/-! ## Values in the place of plain ones -/

namespace Value

/-- A value that is plain already. -/
def IsPlain (v : Value) : Prop := v.plain? = .ok v

/-- A value in the place of a plain one: it is that value, or becomes it. -/
structure StandsFor (w u : Value) : Prop where
  becomes : w = u ∨ w.plain? = .ok u
  noCell : ∀ k c, u ≠ cell k c

variable {u v w : Value} {n : Number}

theorem Carries.plain? (h : w.Carries n) : w.plain? = .ok (.number n) := by cases h <;> rfl

theorem plain?_ne_cell (h : v.plain? = .ok u) (k : CellKind) (c : Value) : u ≠ cell k c := by
  unfold Value.plain? at h
  split at h
  · cases h; nofun
  · split at h
    · obtain ⟨t, -, rfl⟩ := map_eq_ok.1 h; nofun
    · cases h
  · cases h

theorem StandsFor.of_plain? (h : w.plain? = .ok u) : w.StandsFor u := ⟨.inr h, plain?_ne_cell h⟩

theorem StandsFor.eq_of_isPlain (h : w.StandsFor u) (hw : w.IsPlain) : w = u := by
  rcases h.becomes with rfl | h
  · rfl
  · cases hw.symm.trans h
    rfl

theorem StandsFor.eq_of_carries (h : w.StandsFor u) (hw : w.Carries n) : u = number n := by
  rcases h.becomes with rfl | hplain
  · cases hw with
    | number => rfl
    | cell => exact absurd rfl (h.noCell _ _)
  · cases hw.plain?.symm.trans hplain
    rfl

/-- What becomes a plain number is that number, once a single cell is taken for its content. -/
theorem unwrap_of_plain? (h : w.plain? = .ok (number n)) : w.unwrap = number n := by
  unfold Value.plain? at h
  split at h
  · next hw => cases h; exact hw
  · split at h
    · obtain ⟨t, -, ht⟩ := map_eq_ok.1 h; cases ht
    · cases h
  · cases h

theorem eq_of_forall₂_isPlain : ∀ {ws us : List Value}, List.Forall₂ StandsFor ws us →
    (∀ w ∈ ws, w.IsPlain) → ws = us
  | _, _, .nil, _ => rfl
  | _, _, .cons h hs, hplain => by
    rw [h.eq_of_isPlain (hplain _ (List.mem_cons_self ..)),
      eq_of_forall₂_isPlain hs fun w hw => hplain w (List.mem_cons_of_mem _ hw)]

end Value

/-! ## Functions -/

namespace Function

/-- Whether a function looks at its first argument only as an array. -/
def readsArray : Function → List Value → Bool
  | max, further | min, further => further.isEmpty
  | pow, _ | cloglog, _ | step, _ | equals, _ | ofLaw _, _ => false
  | _, _ => true

variable {a b : Value} {m n : Number} {f : Function} {further : List Value}

theorem complementaryExp_of_tensor? (h : a.tensor? = b.tensor?) :
    complementaryExp a = complementaryExp b := by
  have hexp : (Formula.of a).exp = (Formula.of b).exp := by
    show Formula.mk (a.tensor? >>= _) = Formula.mk (b.tensor? >>= _)
    rw [h]
  rw [complementaryExp, complementaryExp, hexp]

/-- Where a function reads an array, a cell is read as its number is. -/
theorem apply_of_readsArray (hf : f.readsArray further) (ha : a.Carries n) :
    f.apply (a :: further) = f.apply (number n :: further) := by
  cases f <;> first | cases hf; done | skip
  case max | min =>
    cases further with
    | cons => cases hf
    | nil => simp only [apply, extreme, ha.tensor?]
  case sum => simp only [apply, total, ha.tensor?]
  case mean => simp only [apply, average, ha.tensor?]
  case sd =>
    cases further with
    | cons => rfl
    | nil => simp only [apply, ha.floats?]
  case logfact =>
    cases further with
    | cons => rfl
    | nil => simp only [apply, logFactorial, ha.tensor?]
  case cexpexp =>
    cases further with
    | cons => rfl
    | nil => simp only [apply, complementaryExp_of_tensor? ha.tensor?]
  case round =>
    cases further <;> simp only [apply, rounded, ha.tensor?]
  case inprod =>
    rcases further with _ | ⟨b, _ | ⟨c, rest⟩⟩
    · rfl
    · simp only [apply, innerProduct, ha.tensor?]
    · rfl
  all_goals simp only [apply, ha.tensor?]

theorem extremes_real (greatest : Bool) (ha : a.Carries m) (hb : b.Carries n)
    (h : m.integer? = none ∨ n.integer? = none) {x y : Float} (hx : m.toFloat? = some x)
    (hy : n.toFloat? = some y) : extremes greatest a b =
      ((Tensor.float x).extremes greatest (.float y)).map ofTensor := by
  obtain ⟨A, hA, hm⟩ := Operand.bears_of_carries ha
  obtain ⟨B, hB, hn⟩ := Operand.bears_of_carries hb
  obtain ⟨s, t, hpair, hs, ht, hkind, -⟩ := hm.pair_real Operand.liftsFloats_beside hn h hx hy
  have hextremes : s.extremes greatest t = (Tensor.float x).extremes greatest (.float y) := by
    simp only [Tensor.extremes, hkind, hs, ht]
    rfl
  simp only [extremes, hA, hB, hpair, hextremes, bind, Except.bind]
  cases (Tensor.float x).extremes greatest (.float y) <;> rfl

theorem complementaryLog_of_real {x : Float} (ha : a.Carries (.real x)) :
    complementaryLog a = complementaryLog (number (.real x)) := by
  cases ha <;> rfl

end Function

/-! ## Indifferent calls -/

/-- Arguments of which a call makes the same as of the plain values in their place. -/
inductive Callee.Indifferent : Callee → List Value → Prop
  | plain {c : Callee} {ws : List Value} (h : ∀ w ∈ ws, w.IsPlain) : Indifferent c ws
  | binary {op : BinaryOp} {a b : Value} {m n : Number} (ha : a.Carries m) (hb : b.Carries n)
    (h : op.Uniform m n) : Indifferent (.operator (.binary op)) [a, b]
  | unary {op : UnaryOp} {a : Value} {n : Number} (ha : a.Carries n) (h : op.Uniform n) :
    Indifferent (.operator (.unary op)) [a]
  | reading {f : Function} {a : Value} {n : Number} {ws : List Value} (hf : f.readsArray ws)
    (ha : a.Carries n) (h : ∀ w ∈ ws, w.IsPlain) : Indifferent (.function f) (a :: ws)
  /-- The function computes a power as an operator on arrays does. -/
  | power {a b : Value} {m n : Number} {x y : Float} (ha : a.Carries m) (hb : b.Carries n)
    (h : m.integer? = none ∨ n.integer? = none) (hx : m.toFloat? = some x)
    (hy : n.toFloat? = some y) : Indifferent (.function .pow) [a, b]
  | extremes {f : Function} {a b : Value} {m n : Number} {x y : Float} (hf : f = .max ∨ f = .min)
    (ha : a.Carries m) (hb : b.Carries n) (h : m.integer? = none ∨ n.integer? = none)
    (hx : m.toFloat? = some x) (hy : n.toFloat? = some y) : Indifferent (.function f) [a, b]
  | step {a : Value} {n : Number} (ha : a.Carries n) (h : BinaryOp.ge.Uniform n (.int 0)) :
    Indifferent (.function .step) [a]
  | equals {a b : Value} {m n : Number} (ha : a.Carries m) (hb : b.Carries n)
    (h : BinaryOp.eq.Uniform m n) : Indifferent (.function .equals) [a, b]
  | complementaryLog {a : Value} {x : Float} (ha : a.Carries (.real x)) :
    Indifferent (.function .cloglog) [a]

/-- A comparison of values that carry numbers on which it is uniform holds as for these. -/
theorem Function.indicator_uniform {op : BinaryOp} (hop : op.isComparison) {a b : Value}
    {m n : Number} (h : op.Uniform m n) (ha : a.Carries m) (hb : b.Carries n) :
    indicator (op.apply a b) = indicator (op.apply (number m) (number n)) := by
  have hplain := BinaryOp.apply_numbers_of_isComparison (m := m) (n := n) hop
  obtain ⟨w, hw, hcarries⟩ := BinaryOp.apply_uniform h ha hb hplain
  rw [hw, hplain]
  simp only [indicator, bind, Except.bind, hcarries.isTrue]
  rfl

/-- What an indifferent call makes of its arguments becomes what it makes of the plain values in
their place. -/
theorem Callee.Indifferent.apply {c : Callee} {ws us : List Value} {u v : Value}
    (h : c.Indifferent ws) (hus : List.Forall₂ StandsFor ws us) (hu : c.apply us = .ok u)
    (hv : u.plain? = .ok v) : ∃ w, c.apply ws = .ok w ∧ w.plain? = .ok v := by
  -- most calls make the very same of both
  have of_eq (heq : c.apply ws = c.apply us) : ∃ w, c.apply ws = .ok w ∧ w.plain? = .ok v :=
    ⟨u, heq.trans hu, hv⟩
  cases h with
  | plain h =>
    obtain rfl := eq_of_forall₂_isPlain hus h
    exact of_eq rfl
  | @binary op a b m n ha hb h =>
    obtain _ | ⟨ha', _ | ⟨hb', _ | _⟩⟩ := hus
    obtain rfl := ha'.eq_of_carries ha
    obtain rfl := hb'.eq_of_carries hb
    have hresult := op.apply_numbers m n
    replace hu : op.apply (number m) (number n) = .ok u := hu
    rw [hu] at hresult
    cases u with
    | number r =>
      cases hv
      obtain ⟨w, hw, hcarries⟩ := BinaryOp.apply_uniform h ha hb hu
      exact ⟨w, hw, hcarries.plain?⟩
    | complex z => cases hv
    | _ => exact hresult.elim
  | @unary op a n ha h =>
    obtain _ | ⟨ha', _ | _⟩ := hus
    obtain rfl := ha'.eq_of_carries ha
    have hresult := op.apply_number n
    replace hu : op.apply (number n) = .ok u := hu
    rw [hu] at hresult
    cases u with
    | number r =>
      cases hv
      obtain ⟨w, hw, hcarries⟩ := UnaryOp.apply_uniform h ha hu
      exact ⟨w, hw, hcarries.plain?⟩
    | complex z => cases hv
    | _ => exact hresult.elim
  | reading hf ha h =>
    obtain _ | ⟨ha', hrest⟩ := hus
    obtain rfl := ha'.eq_of_carries ha
    obtain rfl := eq_of_forall₂_isPlain hrest h
    exact of_eq (Function.apply_of_readsArray hf ha)
  | power ha hb h hx hy =>
    obtain _ | ⟨ha', _ | ⟨hb', _ | _⟩⟩ := hus
    obtain rfl := ha'.eq_of_carries ha
    obtain rfl := hb'.eq_of_carries hb
    refine of_eq ?_
    obtain ⟨A, B, hA, hB, harith⟩ := Operand.arith_real .pow ha hb h hx hy
    obtain ⟨A', B', hA', hB', harith'⟩ := Operand.arith_real .pow (.number _) (.number _) h hx hy
    simp only [Callee.apply, Function.apply, Function.power, hA, hB, harith, hA', hB', harith',
      bind, Except.bind]
  | extremes hf ha hb h hx hy =>
    obtain _ | ⟨ha', _ | ⟨hb', _ | _⟩⟩ := hus
    obtain rfl := ha'.eq_of_carries ha
    obtain rfl := hb'.eq_of_carries hb
    refine of_eq ?_
    have hextremes (greatest : Bool) := (Function.extremes_real greatest ha hb h hx hy).trans
      (Function.extremes_real greatest (.number _) (.number _) h hx hy).symm
    rcases hf with rfl | rfl <;>
      simp only [Callee.apply, Function.apply, Function.extreme, List.foldlM_cons, List.foldlM_nil,
        hextremes]
  | step ha h =>
    obtain _ | ⟨ha', _ | _⟩ := hus
    obtain rfl := ha'.eq_of_carries ha
    exact of_eq (Function.indicator_uniform rfl h ha (.number _))
  | equals ha hb h =>
    obtain _ | ⟨ha', _ | ⟨hb', _ | _⟩⟩ := hus
    obtain rfl := ha'.eq_of_carries ha
    obtain rfl := hb'.eq_of_carries hb
    exact of_eq (Function.indicator_uniform rfl h ha hb)
  | complementaryLog ha =>
    obtain _ | ⟨ha', _ | _⟩ := hus
    obtain rfl := ha'.eq_of_carries ha
    exact of_eq (congrArg Formula.value (Function.complementaryLog_of_real ha))

/-! ## Sober expressions -/

namespace Expr

mutual

/-- As far as an expression has a value in plain values, its calls are indifferent to cells, and
the elements of its arrays are plain or carry numbers. -/
def Sober (env : Environment) : Expr → Prop
  | call f args _ => SoberAll env args ∧ ∀ ws us c, evalAll env args = .ok ws →
    evalAllPlain env args = .ok us → Callee.of? f ws.length = some c → c.Indifferent ws
  | array xs _ _ => SoberAll env xs ∧ ∀ ws us, evalAll env xs = .ok ws →
    evalAllPlain env xs = .ok us → ∀ w ∈ ws, w.IsPlain ∨ ∃ n, w.Carries n
  | _ => True

/-- All of some expressions are sober. -/
def SoberAll (env : Environment) : List Expr → Prop
  | [] => True
  | x :: xs => Sober env x ∧ SoberAll env xs

end

/-- Arrays of cells are the arrays of the numbers in them. -/
theorem arrayOf_of_standsFor {ws us : List Value} (shape : List Int)
    (hus : List.Forall₂ StandsFor ws us) (hws : ∀ w ∈ ws, w.IsPlain ∨ ∃ n, w.Carries n) :
    arrayOf ws shape = arrayOf us shape := by
  have hflatten : flattenAll ws = flattenAll us := by
    induction hus with
    | nil => rfl
    | @cons w u ws us h hs ih =>
      have hhead : w.flatten = u.flatten := by
        rcases hws w (List.mem_cons_self ..) with hw | ⟨n, hw⟩
        · rw [h.eq_of_isPlain hw]
        · rw [h.eq_of_carries hw]
          cases hw <;> rfl
      rw [flattenAll, flattenAll, hhead, ih fun w hw => hws w (List.mem_cons_of_mem _ hw)]
  have hlist : (list ws).tensor? = (list us).tensor? := by
    show (flatten _).map _ = (flatten _).map _
    rw [flatten, flatten, hflatten]
  rw [arrayOf, arrayOf, hlist]

variable {env : Environment}

mutual

/-- A sober expression with a value in plain values has a value, and that one becomes this. -/
theorem Sober.eval (henv : ∀ x v, env x = some v → ∀ k c, v ≠ cell k c) : ∀ {e : Expr} {u : Value},
    e.Sober env → e.evalPlain env = .ok u → ∃ w, e.eval env = .ok w ∧ w.StandsFor u
  | literal v _, _, _, h => by
    cases h
    exact ⟨_, rfl, .inl rfl, nofun⟩
  | name x, _, _, h => by
    simp only [evalPlain] at h
    simp only [Expr.eval]
    cases hx : env x with
    | none => rw [hx] at h; cases h
    | some v =>
      rw [hx] at h
      cases h
      exact ⟨_, rfl, .inl rfl, henv x _ hx⟩
  | call f args l, v, hsober, h => by
    simp only [evalPlain] at h
    split at h
    · cases h
    · next us hus =>
      obtain ⟨ws, hws, hstands⟩ := SoberAll.evalAll henv hsober.1 hus
      split at h
      · next c hc =>
        obtain ⟨u, hu, hv⟩ := bind_eq_ok.1 h
        rw [← hstands.length_eq] at hc
        obtain ⟨w, hw, hplain⟩ := (hsober.2 ws us c hws hus hc).apply hstands hu hv
        refine ⟨w, ?_, .of_plain? hplain⟩
        simp only [Expr.eval, hws, hc, hw]
      · cases h
  | array xs shape l, v, hsober, h => by
    simp only [evalPlain] at h
    split at h
    · cases h
    · next us hus =>
      obtain ⟨ws, hws, hstands⟩ := SoberAll.evalAll henv hsober.1 hus
      obtain ⟨t, ht, rfl⟩ := map_eq_ok.1 h
      refine ⟨tensor t, ?_, .inl rfl, nofun⟩
      simp only [Expr.eval, hws, arrayOf_of_standsFor shape hstands (hsober.2 ws us hws hus), ht,
        Except.map]

theorem SoberAll.evalAll (henv : ∀ x v, env x = some v → ∀ k c, v ≠ cell k c) :
    ∀ {es : List Expr} {us : List Value}, SoberAll env es → evalAllPlain env es = .ok us →
      ∃ ws, Expr.evalAll env es = .ok ws ∧ List.Forall₂ StandsFor ws us
  | [], _, _, h => by
    cases h
    exact ⟨[], rfl, .nil⟩
  | e :: es, _, hsober, h => by
    simp only [evalAllPlain] at h
    split at h
    · cases h
    · next u hu =>
      obtain ⟨us, hus, rfl⟩ := map_eq_ok.1 h
      obtain ⟨w, hw, hstands⟩ := Sober.eval henv hsober.1 hu
      obtain ⟨ws, hws, hall⟩ := SoberAll.evalAll henv hsober.2 hus
      refine ⟨w :: ws, ?_, .cons hstands hall⟩
      simp only [Expr.evalAll, hw, hws, Except.map]

end

/-! ## Formulas -/

/-- Operators on plain numbers give plain numbers, if they give plain values. -/
theorem plain?_of_numericalResult {x : Except Failure Value} (h : NumericalResult x) {u v : Value}
    (hu : x = .ok u) (hv : u.plain? = .ok v) : ∃ n, u = .number n ∧ v = .number n := by
  subst hu
  cases u with
  | number n =>
    cases hv
    exact ⟨n, rfl, rfl⟩
  | complex z => cases hv
  | _ => exact h.elim

/-- An expression is sober, and its value in plain values, if it has one, is a number and its
value. -/
def Numerical (env : Environment) (e : Expr) : Prop :=
  e.Sober env ∧ ∀ u, e.evalPlain env = .ok u → e.eval env = .ok u ∧ ∃ n, u = .number n

theorem evalAll_of_numerical : ∀ {es : List Expr}, (∀ e ∈ es, e.Numerical env) →
    SoberAll env es ∧ ∀ us, evalAllPlain env es = .ok us →
      evalAll env es = .ok us ∧ us.length = es.length ∧ ∀ u ∈ us, ∃ n, u = .number n
  | [], _ => by
    refine ⟨trivial, fun us hus => ?_⟩
    cases hus
    exact ⟨rfl, rfl, nofun⟩
  | e :: es, h => by
    obtain ⟨hsober, hvalue⟩ := h e (List.mem_cons_self ..)
    obtain ⟨hall, hvalues⟩ := evalAll_of_numerical fun e he => h e (List.mem_cons_of_mem _ he)
    refine ⟨⟨hsober, hall⟩, fun us hus => ?_⟩
    simp only [evalAllPlain] at hus
    split at hus
    · cases hus
    · next u hu =>
      obtain ⟨us', hus', rfl⟩ := map_eq_ok.1 hus
      obtain ⟨heval, hn⟩ := hvalue u hu
      obtain ⟨hevals, hlength, hns⟩ := hvalues us' hus'
      refine ⟨by simp only [evalAll, heval, hevals, Except.map], congrArg (· + 1) hlength,
        fun v hv => ?_⟩
      rcases List.mem_cons.1 hv with rfl | hv
      · exact hn
      · exact hns v hv

/-- Calls on such expressions are again of this kind, if they give numerical results. -/
theorem Numerical.call {f : String} {args : List Expr} {l : Option Location}
    (hargs : ∀ e ∈ args, e.Numerical env) (hcall : ∀ us : List Value, us.length = args.length →
      (∀ u ∈ us, ∃ n, u = .number n) → ∀ c, Callee.of? f us.length = some c →
        NumericalResult (c.apply us)) : (Expr.call f args l).Numerical env := by
  obtain ⟨hsober, hvalues⟩ := evalAll_of_numerical hargs
  refine ⟨⟨hsober, fun ws us c hws hus _ => ?_⟩, fun v hv => ?_⟩
  · obtain ⟨heval, -, hnumbers⟩ := hvalues us hus
    cases heval.symm.trans hws
    refine .plain fun w hw => ?_
    obtain ⟨n, rfl⟩ := hnumbers w hw
    rfl
  · simp only [evalPlain] at hv
    split at hv
    · cases hv
    · next us hus =>
      obtain ⟨heval, hlength, hnumbers⟩ := hvalues us hus
      split at hv
      · next c hc =>
        obtain ⟨u, hu, hplain⟩ := bind_eq_ok.1 hv
        obtain ⟨n, rfl, rfl⟩ :=
          plain?_of_numericalResult (hcall us hlength hnumbers c hc) hu hplain
        exact ⟨by simp only [Expr.eval, heval, hc, hu], n, rfl⟩
      · cases hv

/-- Formulas over plain numbers are sober, and have their value in plain values. -/
theorem IsFormula.numerical {e : Expr} (h : e.IsFormula)
    (henv : ∀ x v, env x = some v → ∃ n, v = .number n) : e.Numerical env := by
  induction h with
  | literal v k =>
    refine ⟨trivial, fun u hu => ?_⟩
    cases hu
    exact ⟨rfl, v, rfl⟩
  | name x =>
    refine ⟨trivial, fun u hu => ?_⟩
    simp only [evalPlain] at hu
    cases hx : env x with
    | none => rw [hx] at hu; cases hu
    | some v =>
      rw [hx] at hu
      cases hu
      exact ⟨by simp only [Expr.eval, hx], henv x _ hx⟩
  | unary op l _ iha =>
    refine .call (by simpa using iha) fun us hlength hnumbers c hc => ?_
    obtain ⟨u, rfl⟩ := List.length_eq_one_iff.1 hlength
    obtain ⟨n, rfl⟩ := hnumbers u (List.mem_singleton.2 rfl)
    cases (Callee.of?_unary op).symm.trans hc
    exact op.apply_number n
  | binary op l _ _ iha ihb =>
    refine .call (by simpa using ⟨iha, ihb⟩) fun us hlength hnumbers c hc => ?_
    obtain ⟨u, v, rfl⟩ := List.length_eq_two.1 hlength
    obtain ⟨m, rfl⟩ := hnumbers u (List.mem_cons_self ..)
    obtain ⟨n, rfl⟩ := hnumbers v (List.mem_cons_of_mem _ (List.mem_singleton.2 rfl))
    cases (Callee.of?_binary op).symm.trans hc
    exact op.apply_numbers m n

end Expr

end PlateModel
