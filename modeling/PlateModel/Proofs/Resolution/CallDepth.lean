import PlateModel.Proofs.Computation
import PlateModel.Proofs.Model.References
import PlateModel.Resolution.Lowering

/-!
# The depth of calls in partial evaluation

Evaluating an expression partially lowers it first, lowering refers to arrays, referring to arrays
finds out indices, and an index is found out by evaluating its expression partially. Here these are
functions that call each other, with a bound on how deep the calls may be nested. Whatever the
operators and functions come to, a bound that depends on the expression only is enough. The rules
play no part in that: what they put in the place of names is not lowered again, and the rounds of
replacing names are counted.

* `Definitions.resolveAt`, `Definitions.lowerAt` and the like: the functions, with calls nested no
  deeper than so many levels.
* `Expr.calls`: how many levels are enough to lower an expression.
* `Definitions.resolveAt_ends` and the like: with as many levels they give a result, and this is
  what partial evaluation and lowering give.
-/

namespace PlateModel

/-- What operators and functions come to. -/
abbrev Table := Callee → List Value → Except Failure Value

/-! ## Folding and rounds by a table -/

namespace Expr

/-- A call whose arguments have been folded, by a table. -/
def foldCallBy (table : Table) (f : String) (args : List Expr) (l : Option Location) :
    Except Failure (Expr × Nat) :=
  match constants? args with
  | .error e => .error e
  | .ok none => .ok (call f args l, 0)
  | .ok (some values) =>
    match (Callee.of? f args.length).filter (·.isNumerical) with
    | none => .ok (call f args l, 0)
    | some callee =>
      match table callee values with
      | .ok v =>
        match ofValue? l v with
        | some e => .ok (e, 1)
        | none => .ok (call f args l, 0)
      | .error e => if e.isNumerical then .ok (call f args l, 0) else .error e

mutual

/-- An expression with its constant calls folded by a table. -/
def foldBy (table : Table) : Expr → Except Failure (Expr × Nat)
  | literal v m => .ok (literal v m, 0)
  | name x => .ok (name x, 0)
  | index base is l => do
    let (base, m) ← foldBy table base
    let (is, n) ← foldAllBy table is
    return (index base is l, m + n)
  | call f args l => do
    let (args, m) ← foldAllBy table args
    let (e, n) ← foldCallBy table f args l
    return (e, m + n)
  | range a b l => do
    let (a, m) ← foldBy table a
    let (b, n) ← foldBy table b
    return (range a b l, m + n)
  | stepped a b s l => do
    let (a, m) ← foldBy table a
    let (b, n) ← foldBy table b
    let (s, k) ← foldBy table s
    return (stepped a b s l, m + n + k)
  | colon l => .ok (colon l, 0)
  | array xs shape l => do
    let (xs, n) ← foldAllBy table xs
    return (array xs shape l, n)

/-- Folds every expression of a list by a table. -/
def foldAllBy (table : Table) : List Expr → Except Failure (List Expr × Nat)
  | [] => .ok ([], 0)
  | x :: xs => do
    let (x, m) ← foldBy table x
    let (xs, n) ← foldAllBy table xs
    return (x :: xs, m + n)

end

mutual

theorem foldBy_apply : ∀ e : Expr, e.foldBy Callee.apply = e.fold
  | literal .. | name _ | colon _ => rfl
  | index base is l => by rw [foldBy, fold, foldBy_apply base, foldAllBy_apply is]
  | call f args l => by
    rw [foldBy, fold, foldAllBy_apply args]
    rfl
  | range a b l => by rw [foldBy, fold, foldBy_apply a, foldBy_apply b]
  | stepped a b s l => by rw [foldBy, fold, foldBy_apply a, foldBy_apply b, foldBy_apply s]
  | array xs shape l => by rw [foldBy, fold, foldAllBy_apply xs]

theorem foldAllBy_apply : ∀ es : List Expr, foldAllBy Callee.apply es = foldAll es
  | [] => rfl
  | e :: es => by rw [foldAllBy, foldAll, foldBy_apply e, foldAllBy_apply es]

end

end Expr

/-- A computation that refers to arrays, and that gives nothing if its calls are nested too deep. -/
abbrev Calling := ExceptT Fault (StateT Registry Option)

namespace Calling

variable {α β : Type}

/-- Refers to arrays without calls. -/
def refer (m : Referring α) : Calling α := fun r => some (m r)

/-- Calls are nested too deep. -/
def tooDeep : Calling α := fun _ => none

end Calling

/-- The integer that an outcome is at an index position. -/
def Outcome.integer (written : Expr) (o : Outcome) : Except Fault Int :=
  match o.number? with
  | some (.int i) => return i
  | some (.real x) =>
    match Binary64.toInt? x with
    | some i => return i
    | none => throw (.model (.fractionalIndex written (Decimal.ofFloat x)) written.location)
  | some (.truth _) | none => throw (.model (.unresolvedIndex written) written.location)

namespace Definitions

variable (table : Table) (d : Definitions)

/-- The rounds of replacing names and folding by a table. -/
def settleBy (m : Mapping) : Nat → List Expr → Expr → Except Failure Expr
  | 0, _, e => .ok e
  | n + 1, seen, e => do
    if (← e.constant?).isSome then return e
    let next ← ((e.substitute m).foldBy table).map (·.1)
    if seen.any next.same then return e
    settleBy m n (next :: seen) next

/-- What an expression without array references comes to by a table. -/
def outcomeBy (e : Expr) : Except Failure Outcome := do
  let (e, _) ← e.foldBy table
  let e ← settleBy table d.mapping d.rounds [e] e
  match ← e.constant? with
  | some v => return .constant v
  | none =>
    match e with
    | .name x => return .symbol x
    | e => return .residual e

/-! ## Functions that call each other -/

mutual

/-- What an expression comes to. -/
def resolveAt : Nat → Expr → Calling Outcome
  | 0, _ => Calling.tooDeep
  | n + 1, e => do
    let e ← lowerAt n e
    orFault (d.outcomeBy table e)

/-- An expression with its array references replaced by cells. -/
def lowerAt : Nat → Expr → Calling Expr
  | 0, _ => Calling.tooDeep
  | n + 1, e =>
    match e with
    | .literal v m => pure (.literal v m)
    | .name x => pure (.name x)
    | .index base is l => do
      match ← symbolicAt n (.index base is l) with
      | .inl x => return .name x.name
      | .inr cells => return cells.toExpr l
    | .call f args l => return .call f (← args.mapM (lowerAt n)) l
    | .range a b l => do
      let a ← lowerAt n a
      return .range a (← lowerAt n b) l
    | .stepped a b s l => do
      let s ← lowerAt n s
      let a ← lowerAt n a
      return .stepped a (← lowerAt n b) s l
    | .colon l => pure (.colon l)
    | .array xs shape l => return .array (← xs.mapM (lowerAt n)) shape l

/-- What a name or an array reference stands for. -/
def symbolicAt : Nat → Expr → Calling (Symbol ⊕ Reference)
  | 0, _ => Calling.tooDeep
  | n + 1, e =>
    match e with
    | .name x => pure (.inl (.scalar x))
    | .index base is l => do
      let array ← arrayName base is l
      let is ← is.mapM (indexAt n)
      return .inr (← Calling.refer (referTo array is))
    | e => throw (.model (.noSymbol e.source) e.location)

/-- The index that stands at an index position. -/
def indexAt : Nat → Expr → Calling Index
  | 0, _ => Calling.tooDeep
  | n + 1, e =>
    match e with
    | .colon _ => return .full
    | .stepped a b s l => throw (.model (.steppedRange (.stepped a b s l)) l)
    | .range a b _ => do
      let i ← integerAt n a
      return .between i (← integerAt n b)
    | e => return .position (← integerAt n e)

/-- The integer that an expression comes to at an index position. -/
def integerAt : Nat → Expr → Calling Int
  | 0, _ => Calling.tooDeep
  | n + 1, e => do
    let o ← resolveAt n e
    o.integer e

end

end Definitions

/-! ## How deep calls go -/

namespace Expr

mutual

/-- How many levels of calls it takes to lower an expression. An index takes its own levels and
those from lowering the reference to lowering the index. -/
def calls : Expr → Nat
  | literal .. | name _ | colon _ => 1
  | index _ is _ => callsOfAll is + 5
  | call _ args _ => callsOfAll args + 1
  | range a b _ => max (calls a) (calls b) + 1
  | stepped a b s _ => max (calls a) (max (calls b) (calls s)) + 1
  | array xs _ _ => callsOfAll xs + 1

/-- How many levels of calls it takes to lower any of some expressions. -/
def callsOfAll : List Expr → Nat
  | [] => 0
  | x :: xs => max (calls x) (callsOfAll xs)

end

end Expr

/-! ## Results -/

namespace Calling

variable {α β : Type} {P : Prop}

/-- On every registry a computation gives a result, and on a condition it gives the result of
another one. -/
def Ends (P : Prop) (m : Calling α) (f : Referring α) : Prop :=
  ∀ r, ∃ x, m r = some x ∧ (P → x = f r)

theorem Ends.pure (a : α) : Ends P (pure a : Calling α) (pure a) := fun _ => ⟨_, rfl, fun _ => rfl⟩

theorem Ends.throw (e : Fault) : Ends P (throw e : Calling α) (throw e) :=
  fun _ => ⟨_, rfl, fun _ => rfl⟩

theorem Ends.refer (m : Referring α) : Ends P (refer m) m := fun r => ⟨m r, rfl, fun _ => rfl⟩

theorem Ends.lift {x y : Except Fault α} (h : P → x = y) :
    Ends P (liftM x : Calling α) (liftM y) := fun _ => ⟨_, rfl, fun hP => by rw [h hP]; rfl⟩

theorem Ends.bind {m : Calling α} {f : Referring α} {k : α → Calling β} {g : α → Referring β}
    (hm : Ends P m f) (hk : ∀ a, Ends P (k a) (g a)) : Ends P (m >>= k) (f >>= g) := by
  intro r
  obtain ⟨⟨e | a, t⟩, hx, heq⟩ := hm r
  · refine ⟨(.error e, t), ?_, fun hP => (run_bind_of_error (heq hP).symm).symm⟩
    simp only [Bind.bind, ExceptT.bind, ExceptT.mk, StateT.bind, hx]
    rfl
  · obtain ⟨y, hy, heq'⟩ := hk a t
    refine ⟨y, ?_, fun hP => (heq' hP).trans (run_bind_of_ok (heq hP).symm).symm⟩
    simp only [Bind.bind, ExceptT.bind, ExceptT.mk, StateT.bind, hx]
    exact hy

end Calling

namespace Definitions

open Calling

variable {table : Table} {d : Definitions}

theorem settleBy_apply (m : Mapping) : ∀ (n : Nat) (seen : List Expr) (e : Expr),
    settleBy Callee.apply m n seen e = settle m n seen e
  | 0, _, _ => rfl
  | n + 1, seen, e => by
    simp only [settleBy, settle, replaced, Expr.foldBy_apply, settleBy_apply m n]

theorem outcomeBy_apply (e : Expr) : d.outcomeBy Callee.apply e = d.outcome e := by
  simp only [outcomeBy, Expr.foldBy_apply, settleBy_apply]
  rfl

theorem integer_eq (written lowered : Expr) :
    d.integer written lowered = (orFault (d.outcome lowered) >>= (·.integer written)) := rfl

variable {n : Nat} {e : Expr}

theorem resolveAt_of_lowerAt (h : Ends (table = Callee.apply) (d.lowerAt table n e) (d.lower e)) :
    Ends (table = Callee.apply) (d.resolveAt table (n + 1) e) (d.resolve e) := by
  rw [resolveAt, resolve]
  refine h.bind fun lowered => .lift fun htable => ?_
  rw [htable, outcomeBy_apply]

theorem integerAt_of_lowerAt (h : Ends (table = Callee.apply) (d.lowerAt table n e) (d.lower e)) :
    Ends (table = Callee.apply) (d.integerAt table (n + 2) e)
      (do d.integer e (← d.lower e)) := by
  have hresolve : (d.resolve e >>= fun o => (o.integer e : Referring Int)) =
      (do d.integer e (← d.lower e)) := by
    rw [resolve, bind_assoc]
    refine congrArg _ (funext fun lowered => ?_)
    rw [integer_eq]
    cases orFault (d.outcome lowered) <;> rfl
  rw [integerAt, ← hresolve]
  exact (resolveAt_of_lowerAt h).bind fun o => .lift fun _ => rfl

/-- The index that stands at an index position. -/
def indexOf (d : Definitions) : Expr → Referring Index
  | .colon _ => return .full
  | .stepped a b s l => throw (.model (.steppedRange (.stepped a b s l)) l)
  | .range a b _ => do
    let i ← (do d.integer a (← d.lower a))
    return .between i (← (do d.integer b (← d.lower b)))
  | e => return .position (← (do d.integer e (← d.lower e)))

theorem indices_cons (e : Expr) (rest : List Expr) :
    d.indices (e :: rest) = do return (← d.indexOf e) :: (← d.indices rest) := by
  cases e with
  | stepped => rw [indices, indexOf]; rfl
  | _ => simp only [indices, indexOf, bind_assoc, pure_bind]

theorem indexAt_of_isPoint (hpoint : e.isPoint)
    (h : Ends (table = Callee.apply) (d.lowerAt table n e) (d.lower e)) :
    Ends (table = Callee.apply) (d.indexAt table (n + 3) e) (d.indexOf e) := by
  cases e with
  | colon | range | stepped => cases hpoint
  | _ =>
    simp only [indexAt, indexOf]
    exact (integerAt_of_lowerAt h).bind fun i => .pure _

theorem mapM_indexAt_cons {rest : List Expr}
    (he : Ends (table = Callee.apply) (d.indexAt table n e) (d.indexOf e))
    (hrest : Ends (table = Callee.apply) (rest.mapM (d.indexAt table n)) (d.indices rest)) :
    Ends (table = Callee.apply) ((e :: rest).mapM (d.indexAt table n)) (d.indices (e :: rest)) := by
  rw [List.mapM_cons, indices_cons]
  exact he.bind fun i => hrest.bind fun is => .pure _

mutual

theorem lowerAt_ends : ∀ {e : Expr} {n : Nat}, e.calls ≤ n →
    Ends (table = Callee.apply) (d.lowerAt table n e) (d.lower e)
  | .literal .., n + 1, _ | .name _, n + 1, _ | .colon _, n + 1, _ => by
    rw [lowerAt, lower]
    exact .pure _
  | .literal .., 0, h | .name _, 0, h | .colon _, 0, h | .index .., 0, h | .call .., 0, h
  | .range .., 0, h | .stepped .., 0, h | .array .., 0, h => by
    simp [Expr.calls] at h
  | .index base is l, n + 1, h => by
    simp only [Expr.calls] at h
    obtain ⟨k, rfl⟩ : ∃ k, n = k + 4 := ⟨n - 4, by omega⟩
    simp only [lowerAt, symbolicAt, lower, bind_assoc, pure_bind]
    exact (Ends.lift fun _ => rfl).bind fun array => (indicesAt_ends (by omega)).bind fun is =>
      (Ends.refer _).bind fun cells => .pure _
  | .call f args l, n + 1, h => by
    simp only [Expr.calls] at h
    rw [lowerAt, lower]
    exact (lowerAllAt_ends (by omega)).bind fun args => .pure _
  | .range a b l, n + 1, h => by
    simp only [Expr.calls] at h
    rw [lowerAt, lower]
    exact (lowerAt_ends (by omega)).bind fun a => (lowerAt_ends (by omega)).bind fun b => .pure _
  | .stepped a b s l, n + 1, h => by
    simp only [Expr.calls] at h
    rw [lowerAt, lower]
    exact (lowerAt_ends (by omega)).bind fun s => (lowerAt_ends (by omega)).bind fun a =>
      (lowerAt_ends (by omega)).bind fun b => .pure _
  | .array xs shape l, n + 1, h => by
    simp only [Expr.calls] at h
    rw [lowerAt, lower]
    exact (lowerAllAt_ends (by omega)).bind fun xs => .pure _

theorem lowerAllAt_ends : ∀ {es : List Expr} {n : Nat}, Expr.callsOfAll es ≤ n →
    Ends (table = Callee.apply) (es.mapM (d.lowerAt table n)) (d.lowerAll es)
  | [], n, _ => by
    rw [List.mapM_nil, lowerAll]
    exact .pure _
  | e :: es, n, h => by
    simp only [Expr.callsOfAll] at h
    rw [List.mapM_cons, lowerAll]
    exact (lowerAt_ends (by omega)).bind fun e =>
      (lowerAllAt_ends (by omega)).bind fun es => .pure _

theorem indicesAt_ends : ∀ {es : List Expr} {n : Nat}, Expr.callsOfAll es ≤ n →
    Ends (table = Callee.apply) (es.mapM (d.indexAt table (n + 3))) (d.indices es)
  | [], n, _ => by
    rw [List.mapM_nil, indices]
    exact .pure _
  | .colon l :: rest, n, h => by
    simp only [Expr.callsOfAll] at h
    refine mapM_indexAt_cons ?_ (indicesAt_ends (by omega))
    rw [indexAt, indexOf]
    exact .pure _
  | .stepped a b s l :: rest, n, h => by
    simp only [Expr.callsOfAll] at h
    refine mapM_indexAt_cons ?_ (indicesAt_ends (by omega))
    rw [indexAt, indexOf]
    exact .throw _
  | .range a b l :: rest, n, h => by
    simp only [Expr.callsOfAll, Expr.calls] at h
    refine mapM_indexAt_cons ?_ (indicesAt_ends (by omega))
    rw [indexAt, indexOf]
    exact (integerAt_of_lowerAt (lowerAt_ends (by omega))).bind fun i =>
      (integerAt_of_lowerAt (lowerAt_ends (by omega))).bind fun j => .pure _
  | .literal v k :: rest, n, h | .name x :: rest, n, h | .index base is l :: rest, n, h
  | .call f args l :: rest, n, h | .array xs shape l :: rest, n, h => by
    simp only [Expr.callsOfAll] at h
    exact mapM_indexAt_cons (indexAt_of_isPoint rfl (lowerAt_ends (by omega)))
      (indicesAt_ends (by omega))

end

theorem symbolicAt_ends (h : e.calls + 1 ≤ n) :
    Ends (table = Callee.apply) (d.symbolicAt table n e) (d.symbolic e) := by
  obtain ⟨n, rfl⟩ : ∃ k, n = k + 1 := ⟨n - 1, by omega⟩
  cases e with
  | name x =>
    rw [symbolicAt, symbolic]
    exact .pure _
  | index base is l =>
    simp only [Expr.calls] at h
    obtain ⟨k, rfl⟩ : ∃ k, n = k + 3 := ⟨n - 3, by omega⟩
    rw [symbolicAt, symbolic]
    exact (Ends.lift fun _ => rfl).bind fun array => (indicesAt_ends (by omega)).bind fun is =>
      (Ends.refer _).bind fun cells => .pure _
  | _ =>
    simp only [symbolicAt, symbolic]
    exact .throw _

theorem resolveAt_ends (h : e.calls + 1 ≤ n) :
    Ends (table = Callee.apply) (d.resolveAt table n e) (d.resolve e) := by
  obtain ⟨n, rfl⟩ : ∃ k, n = k + 1 := ⟨n - 1, by omega⟩
  exact resolveAt_of_lowerAt (lowerAt_ends (Nat.le_of_succ_le_succ h))

end Definitions

end PlateModel
