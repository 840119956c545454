import PlateModel.Evaluation.Eval
import PlateModel.Normal.Special
import PlateModel.Text.Identifier

/-!
# Validation

Validation refuses programs of a shape that nothing can be made of: unknown functions, ranges with a
step, nested indices, left-hand sides that cannot be defined. In what it accepts it writes `x[]` as
`x[:]`.

* `Program.validate`: a program of the right shape, or the first rule that it breaks.
-/

namespace PlateModel

namespace Expr

/-- Whether a call of a name with so many arguments means anything. -/
def isKnownCall (f : String) (arity : Nat) : Bool :=
  (Callee.of? f arity).isSome || (SpecialFunction.ofName? f).isSome

/-- What stands in front of indices must be a name. -/
def checkBase (base : Expr) (is : List Expr) (l : Option Location) : Except Fault Unit :=
  match base with
  | name _ => .ok ()
  | index .. => .error (.model (.nestedArray (index base is l)) l)
  | base => .error (.model (.unnamedArray base) l)

mutual

/-- An expression of the right shape. -/
def validate : Expr → Except Fault Expr
  | literal v m => .ok (literal v m)
  | name x => .ok (name x)
  | index base [] l => .ok (index base [colon l] l)
  | index base (i :: is) l => do
    checkBase base (i :: is) l
    return index base (← validateAll (i :: is)) l
  | call f args l => do
    if !isKnownCall f args.length then throw (.model (.unknownFunction f) l)
    return call f (← validateAll args) l
  | range a b l => do
    let a ← validate a
    return range a (← validate b) l
  | e@(stepped _ _ _ l) => .error (.model (.steppedRange e) l)
  | colon l => .ok (colon l)
  | array xs shape l => return array (← validateAll xs) shape l

/-- Validates every expression of a list. -/
def validateAll : List Expr → Except Fault (List Expr)
  | [] => .ok []
  | x :: xs => do
    let x ← validate x
    return x :: (← validateAll xs)

end

/-- The left-hand side of a definition at a place: a name or an array reference. -/
def validateTarget (l : Option Location) : Expr → Except Fault Expr
  | name x => .ok (name x)
  | index base [] _ => .error (.model (.implicitTarget base) l)
  | e@(index ..) => e.validate
  | call f [_] _ => .error (.model (.linkInSample f) l)
  | e => .error (.model (.targetKind e) l)

/-- The left-hand side of a logical definition, which may be a call of one such side. -/
def validateLinkedTarget (l : Option Location) : Expr → Except Fault Expr
  | call f [e] k => do return call f [← validateTarget l e] k
  | e => validateTarget l e

end Expr

namespace Stmt

/-- The right-hand side of a `~` statement must be a call of a distribution. -/
def checkSampled (rhs : Expr) (l : Option Location) : Except Fault Unit :=
  match rhs with
  | .call f _ k => if isDistribution f then .ok () else .error (.model (.unknownDistribution f) k)
  | rhs => .error (.model (.notDistribution rhs) l)

mutual

/-- A statement of the right shape. -/
def validate : Stmt → Except Fault Stmt
  | assign lhs rhs l => do
    let lhs ← lhs.validateLinkedTarget l
    return assign lhs (← rhs.validate) l
  | sample lhs rhs l => do
    let lhs ← lhs.validateTarget l
    checkSampled rhs l
    return sample lhs (← rhs.validate) l
  | loop i lower upper body l => do
    if !Text.isIdentifier i then throw (.model (.loopVariable i) l)
    let lower ← lower.validate
    let upper ← upper.validate
    return loop i lower upper (← validateAll body) l
  | branch condition body l => do
    let condition ← condition.validate
    return branch condition (← validateAll body) l

/-- Validates every statement of a list. -/
def validateAll : List Stmt → Except Fault (List Stmt)
  | [] => .ok []
  | s :: rest => do
    let s ← validate s
    return s :: (← validateAll rest)

end

end Stmt

/-- A program of the right shape. -/
def Program.validate (p : Program) : Except Fault Program :=
  (Stmt.validateAll p.statements).map fun statements => { p with statements }

end PlateModel
