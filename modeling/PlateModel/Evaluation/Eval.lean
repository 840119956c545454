import PlateModel.Model.Tree
import PlateModel.Value.Functions

/-!
# Evaluating expressions

The value of an expression whose names have values. Arguments are evaluated from left to right, and
the first failure is that of the expression. Array references and ranges have no value of their own;
they are replaced by names and arrays of names before an expression is evaluated.

The name of a call and the number of its arguments decide whether it applies an operator, makes a
distribution or calls a function of the table. Operators come first, so the name of an operator with
a wrong number of arguments is unknown.

* `Callee.apply`: the value of a call.
* `Expr.eval`: the value of an expression.
-/

namespace PlateModel

/-! ## What a call calls -/

/-- What a call applies to the values of its arguments. -/
inductive Callee
  | operator (op : Operator)
  | distribution (f : Family)
  | function (f : Function)
  deriving Repr, DecidableEq

namespace Callee

/-- What a call of a name with so many arguments applies. -/
def of? (f : String) (arity : Nat) : Option Callee :=
  match Operator.of? f arity with
  | some op => some (operator op)
  | none =>
    match Family.ofName? f with
    | some family => some (distribution family)
    | none => (Function.ofName? f).map function

/-- Whether a call gives a number or an array of numbers, whatever constants it is applied to. -/
def isNumerical : Callee → Bool
  | operator _ => true
  | distribution _ => false
  | function f => !f.takesDistribution

/-- The value of a call. -/
def apply (c : Callee) (args : List Value) : Except Failure Value :=
  match c, args with
  | operator (.binary op), [a, b] => op.apply a b
  | operator (.unary op), [a] => op.apply a
  | operator _, _ => .error .unsuitableKind
  | distribution f, args => f.make args
  | function f, args => f.apply args

end Callee

/-! ## Expressions -/

/-- Values for names. -/
abbrev Environment := String → Option Value

namespace Expr

mutual

/-- The value of an expression. -/
def eval (env : Environment) : Expr → Except Failure Value
  | literal v _ => .ok (.number v)
  | name x =>
    match env x with
    | some v => .ok v
    | none => .error .unboundName
  | call f args _ =>
    match evalAll env args with
    | .error e => .error e
    | .ok values =>
      match Callee.of? f values.length with
      | some callee => callee.apply values
      | none => .error .unsuitableKind
  | array xs shape _ =>
    match evalAll env xs with
    | .error e => .error e
    | .ok values => (Value.arrayOf values shape).map .tensor
  | index .. | range .. | stepped .. | colon .. => .error .unsuitableKind

/-- The values of some expressions. -/
def evalAll (env : Environment) : List Expr → Except Failure (List Value)
  | [] => .ok []
  | x :: xs =>
    match eval env x with
    | .error e => .error e
    | .ok v => (evalAll env xs).map (v :: ·)

end

end Expr

end PlateModel
