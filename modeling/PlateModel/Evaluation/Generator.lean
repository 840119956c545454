import PlateModel.Assoc
import PlateModel.Diagnostic.Fault
import PlateModel.Evaluation.Eval
import PlateModel.Model.Names

/-!
# Compiled expressions

A generator is an expression as a function of its names. Only expressions without array references
and ranges, whose calls are all known, can be compiled; the first form that cannot be is the fault,
the arguments of a call coming before the call.

* `Generator.ofExpr`: the generator of an expression.
* `Generator.call`: its value for arguments given by position and by name.
-/

namespace PlateModel

namespace Expr

mutual

/-- Whether an expression can be evaluated, and if not, why not. -/
def checkEvaluable : Expr → Except Fault Unit
  | literal .. | name _ => .ok ()
  | e@(index ..) => .error (.internal (.reference e))
  | e@(range ..) | e@(stepped ..) => .error (.internal (.range e))
  | colon _ => .error (.internal .colon)
  | call f args l =>
    match checkAllEvaluable args with
    | .error e => .error e
    | .ok () =>
      if (Callee.of? f args.length).isSome then .ok () else .error (.model (.unknownFunction f) l)
  | array xs _ _ => checkAllEvaluable xs

/-- Whether all of some expressions can be evaluated. -/
def checkAllEvaluable : List Expr → Except Fault Unit
  | [] => .ok ()
  | x :: xs =>
    match checkEvaluable x with
    | .error e => .error e
    | .ok () => checkAllEvaluable xs

end

end Expr

/-- A compiled expression and the names of its parameters. -/
structure Generator where
  expression : Expr
  parameters : List String
  deriving Inhabited

namespace Generator

/-- The generator of an expression; its parameters are the given ones, or the names of the
expression in the order of first appearance. -/
def ofExpr (e : Expr) (parameters : Option (List String) := none) : Except Fault Generator :=
  e.checkEvaluable.map fun () => ⟨e, parameters.getD e.distinctNames⟩

/-- The values of the parameters, and of any further names. -/
def bind (g : Generator) (positional : List Value) (named : Assoc Value) : Assoc Value :=
  named.entries.foldl (fun t (k, v) => t.put k v) (Assoc.ofList (g.parameters.zip positional))

/-- The name by which a generator is itself known; no value can be given by it. -/
def ownName : String := "self"

/-- The value of a generator. Every parameter needs a value; a name that is given twice has the
value given by name. -/
def call (g : Generator) (positional : List Value) (named : Assoc Value) :
    Except CallFailure Value :=
  if named.contains ownName then .error .reservedName
  else if g.parameters.length < positional.length then
    .error (.tooManyArguments g.parameters positional.length)
  else
    let env := g.bind positional named
    match g.parameters.filter fun x => !env.contains x with
    | [] =>
      match g.expression.eval env.get? with
      | .ok v => .ok v
      | .error e => .error (.evaluation e)
    | names => .error (.missingArguments names)

/-- The source of a generator: its parameters and its expression. -/
def source (g : Generator) : String :=
  "(" ++ ", ".intercalate g.parameters ++ ") -> " ++ g.expression.source

end Generator

end PlateModel
