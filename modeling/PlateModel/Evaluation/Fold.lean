import PlateModel.Evaluation.Eval
import PlateModel.Model.Tree

/-!
# Folding constants

Calls of operators and functions whose arguments are constants are replaced by their values. A
constant is a literal or an array of literals. A call that fails for numerical reasons, or whose
value is a complex number, stays as it is; so do distributions and the functions that take them.

* `Expr.constant?`: the value of a constant.
* `Expr.fold`: an expression with its constant calls folded, and how many there were.
-/

namespace PlateModel

namespace Expr

/-- The numbers of a list of literals. -/
def literals? : List Expr → Option (List Number)
  | [] => some []
  | literal v _ :: rest => (literals? rest).map (v :: ·)
  | _ :: _ => none

/-- The value of a literal or of an array of literals. An array must have as many elements as its
shape says. -/
def constant? : Expr → Except Failure (Option Value)
  | literal v _ => .ok (some (.number v))
  | array xs shape _ =>
    match literals? xs with
    | none => .ok none
    | some vs =>
      (Value.arrayOf (vs.map .number) shape).map fun t => some (.tensor t)
  | _ => .ok none

/-- The values of some expressions if all are constants. -/
def constants? : List Expr → Except Failure (Option (List Value))
  | [] => .ok (some [])
  | x :: xs =>
    match x.constant? with
    | .error e => .error e
    | .ok v =>
      (constants? xs).map fun vs =>
        match v, vs with
        | some v, some vs => some (v :: vs)
        | _, _ => none

/-- The numbers of a list of cells, if all are real. -/
def numbers? (cells : List Value) : Option (List Number) :=
  cells.mapM fun
    | .number n => some n
    | _ => none

/-- A numerical value as an expression. -/
def ofValue? (l : Option Location) (v : Value) : Option Expr :=
  match v.unwrap with
  | .number n => some (ofNumber n)
  | .tensor t =>
    (numbers? t.cells).map fun ns => array (ns.map ofNumber) (t.shape.map Int.ofNat) l
  | _ => none

/-- A call whose arguments have been folded. -/
def foldCall (f : String) (args : List Expr) (l : Option Location) : Except Failure (Expr × Nat) :=
  match constants? args with
  | .error e => .error e
  | .ok none => .ok (call f args l, 0)
  | .ok (some values) =>
    match (Callee.of? f args.length).filter (·.isNumerical) with
    | none => .ok (call f args l, 0)
    | some callee =>
      match callee.apply values with
      | .ok v =>
        match ofValue? l v with
        | some e => .ok (e, 1)
        | none => .ok (call f args l, 0)
      | .error e => if e.isNumerical then .ok (call f args l, 0) else .error e

mutual

/-- An expression with its constant calls folded, and how many calls that were. -/
def fold : Expr → Except Failure (Expr × Nat)
  | literal v m => .ok (literal v m, 0)
  | name x => .ok (name x, 0)
  | index base is l => do
    let (base, m) ← fold base
    let (is, n) ← foldAll is
    return (index base is l, m + n)
  | call f args l => do
    let (args, m) ← foldAll args
    let (e, n) ← foldCall f args l
    return (e, m + n)
  | range a b l => do
    let (a, m) ← fold a
    let (b, n) ← fold b
    return (range a b l, m + n)
  | stepped a b s l => do
    let (a, m) ← fold a
    let (b, n) ← fold b
    let (s, k) ← fold s
    return (stepped a b s l, m + n + k)
  | colon l => .ok (colon l, 0)
  | array xs shape l => do
    let (xs, n) ← foldAll xs
    return (array xs shape l, n)

/-- Folds every expression of a list. -/
def foldAll : List Expr → Except Failure (List Expr × Nat)
  | [] => .ok ([], 0)
  | x :: xs => do
    let (x, m) ← fold x
    let (xs, n) ← foldAll xs
    return (x :: xs, m + n)

end

end Expr

end PlateModel
