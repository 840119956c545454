import PlateModel.Assoc
import PlateModel.Evaluation.Fold
import PlateModel.Model.Substitution

/-!
# Partial evaluation

Names are defined by data, or by logical rules. An expression is evaluated partially by replacing
every defined name by its value or its expression and folding constants, over and over again, until
nothing changes, a form recurs, or a constant is left. A chain of rules that is not cyclic is
replaced completely within one round more than there are rules, so no more rounds are made.

* `Definitions.settle`: the rounds of replacing and folding.
* `Definitions.outcome`: what an expression without array references comes to.
-/

namespace PlateModel

/-- What is known of the names of a model: the data, and the right-hand sides of logical rules. -/
structure Definitions where
  data : Assoc Number
  logical : Assoc Expr
  deriving Inhabited

/-- What an expression comes to. -/
inductive Outcome
  | constant (v : Value)
  /-- A single name without a definition. -/
  | symbol (x : String)
  /-- What is left of any other expression. -/
  | residual (e : Expr)
  deriving Inhabited

/-- The number that an expression comes to. -/
def Outcome.number? : Outcome → Option Number
  | constant (.number n) => some n
  | _ => none

namespace Definitions

/-- The expressions for all defined names; data count before rules. -/
def mapping (d : Definitions) : Mapping :=
  d.data.entries.map (fun (x, v) => (x, Expr.ofNumber v)) ++ d.logical.entries

/-- How often defined names are replaced at most. -/
def rounds (d : Definitions) : Nat := d.logical.size + 1

/-- One round: defined names are replaced and constants folded. -/
def replaced (m : Mapping) (e : Expr) : Except Failure Expr := (e.substitute m).fold.map (·.1)

/-- At most so many rounds, until a constant is left or a form recurs. -/
def settle (m : Mapping) : Nat → List Expr → Expr → Except Failure Expr
  | 0, _, e => .ok e
  | n + 1, seen, e => do
    if (← e.constant?).isSome then return e
    let next ← replaced m e
    if seen.any next.same then return e
    settle m n (next :: seen) next

/-- What an expression without array references comes to. -/
def outcome (d : Definitions) (e : Expr) : Except Failure Outcome := do
  let (e, _) ← e.fold
  let e ← settle d.mapping d.rounds [e] e
  match ← e.constant? with
  | some v => return .constant v
  | none =>
    match e with
    | .name x => return .symbol x
    | e => return .residual e

end Definitions

end PlateModel
