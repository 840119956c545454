import PlateModel.Diagnostic.Fault
import PlateModel.Model.Names

/-!
# Functions of stochastic variables

`cumulative(s, x)`, `density(s, x)` and `deviance(s, x)` ask for the distribution that `s` is drawn
from. Their calls are replaced by calls of the functions of distributions, with the distribution of
the only `~` statement for `s` in the place of `s`. The statement is looked up as it is written,
before loops are unrolled, so `cumulative(y[1], x)` does not find a statement for `y[i]` in a loop.

* `Program.expandSpecial`: a program with these calls replaced.
-/

namespace PlateModel

/-- A function of a stochastic variable and a value. -/
inductive SpecialFunction
  | cumulative
  | density
  | deviance
  deriving Repr, DecidableEq

namespace SpecialFunction

def name : SpecialFunction → String
  | cumulative => "cumulative"
  | density => "density"
  | deviance => "deviance"

def all : List SpecialFunction := [cumulative, density, deviance]

def ofName? (f : String) : Option SpecialFunction := all.find? (·.name = f)

/-- What a call of the function comes to, given the distribution of the variable. -/
def expansion (f : SpecialFunction) (distribution value : Expr) (l : Option Location) : Expr :=
  match f with
  | cumulative => .call "cdf" [distribution, value] l
  | density => .call "pdf" [distribution, value] l
  | deviance =>
    .call "*" [.ofNumber (.int (-2)), .call "logpdf" [distribution, value] l] l

end SpecialFunction

/-- The left-hand and right-hand sides of `~` statements. -/
abbrev Samples := List (Expr × Expr)

namespace Stmt

mutual

/-- Both sides of the `~` statements in a statement, at any depth. -/
def samples : Stmt → Samples
  | assign .. => []
  | sample lhs rhs _ => [(lhs, rhs)]
  | loop _ _ _ body _ | branch _ body _ => samplesAll body

def samplesAll : List Stmt → Samples
  | [] => []
  | s :: rest => samples s ++ samplesAll rest

end

end Stmt

/-- The distribution of the only `~` statement for a variable. -/
def Samples.distribution (samples : Samples) (f : SpecialFunction) (x : Expr)
    (l : Option Location) : Except Fault Expr :=
  match samples.filter fun (lhs, _) => lhs.same x with
  | [(_, rhs)] => .ok rhs
  | [] => .error (.model (.noSample x f.name) l)
  | found => .error (.model (.severalSamples x f.name found.length) l)

namespace Expr

/-- A call with its arguments already expanded. -/
def expandCall (samples : Samples) (f : String) (args : List Expr) (l : Option Location) :
    Except Fault Expr :=
  match SpecialFunction.ofName? f, args with
  | none, args => .ok (.call f args l)
  | some f, [x, value] => do return f.expansion (← samples.distribution f x l) value l
  | some _, args => .error (.model (.specialArity f args.length) l)

mutual

/-- An expression with the calls of special functions expanded, inner calls first. -/
def expandSpecial (samples : Samples) : Expr → Except Fault Expr
  | literal v m => .ok (literal v m)
  | name x => .ok (name x)
  | index base is l => do
    let base ← expandSpecial samples base
    return index base (← expandSpecialAll samples is) l
  | call f args l => do expandCall samples f (← expandSpecialAll samples args) l
  | range a b l => do
    let a ← expandSpecial samples a
    return range a (← expandSpecial samples b) l
  | stepped a b s l => do
    let s ← expandSpecial samples s
    let a ← expandSpecial samples a
    return stepped a (← expandSpecial samples b) s l
  | colon l => .ok (colon l)
  | array xs shape l => return array (← expandSpecialAll samples xs) shape l

/-- Expands every expression of a list. -/
def expandSpecialAll (samples : Samples) : List Expr → Except Fault (List Expr)
  | [] => .ok []
  | x :: xs => do
    let x ← expandSpecial samples x
    return x :: (← expandSpecialAll samples xs)

end

end Expr

namespace Stmt

mutual

/-- A statement with the calls of special functions expanded. -/
def expandSpecial (samples : Samples) : Stmt → Except Fault Stmt
  | assign lhs rhs l => do
    let lhs ← lhs.expandSpecial samples
    return assign lhs (← rhs.expandSpecial samples) l
  | sample lhs rhs l => do
    let lhs ← lhs.expandSpecial samples
    return sample lhs (← rhs.expandSpecial samples) l
  | loop i lower upper body l => do
    let lower ← lower.expandSpecial samples
    let upper ← upper.expandSpecial samples
    return loop i lower upper (← expandSpecialAll samples body) l
  | branch condition body l => do
    let condition ← condition.expandSpecial samples
    return branch condition (← expandSpecialAll samples body) l

/-- Expands every statement of a list. -/
def expandSpecialAll (samples : Samples) : List Stmt → Except Fault (List Stmt)
  | [] => .ok []
  | s :: rest => do
    let s ← expandSpecial samples s
    return s :: (← expandSpecialAll samples rest)

end

end Stmt

/-- A program with the calls of special functions expanded. -/
def Program.expandSpecial (p : Program) : Except Fault Program :=
  (Stmt.expandSpecialAll (Stmt.samplesAll p.statements) p.statements).map
    fun statements => { p with statements }

end PlateModel
