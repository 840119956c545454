import PlateModel.Model.Location
import PlateModel.Number.Basic

/-!
# Model trees

Expressions, statements and programs. Every compound form remembers where it was written, if that is
known; places play no part in the equality of trees (`Expr.same`, `Stmt.same`). Constants are equal
by value, so `1`, `1.0` and `true` are the same constant; two constants that are not numbers are the
same only if they were written at the same place, which is what the mark of a constant is for.
-/

namespace PlateModel

/-- An expression. -/
inductive Expr
  | literal (value : Number) (mark : Nat)
  /-- A variable, or the name of one array cell. -/
  | name (x : String)
  /-- An array reference; in a valid program the base is a name. -/
  | index (base : Expr) (indices : List Expr) (location : Option Location)
  /-- A call of a function, an operator or a distribution. -/
  | call (f : String) (args : List Expr) (location : Option Location)
  /-- An inclusive range in an index position. -/
  | range (lower upper : Expr) (location : Option Location)
  /-- A range with a step, which no valid program holds. -/
  | stepped (lower upper step : Expr) (location : Option Location)
  /-- Every index along one axis. -/
  | colon (location : Option Location)
  /-- The elements of an array in row-major order. -/
  | array (elements : List Expr) (shape : List Int) (location : Option Location)
  deriving Inhabited

/-- A statement. -/
inductive Stmt
  /-- A logical definition `lhs = rhs`. -/
  | assign (lhs rhs : Expr) (location : Option Location)
  /-- A stochastic definition `lhs ~ rhs`. -/
  | sample (lhs rhs : Expr) (location : Option Location)
  /-- The body once for every integer between the bounds. -/
  | loop (counter : String) (lower upper : Expr) (body : List Stmt) (location : Option Location)
  /-- The body if the condition holds. -/
  | branch (condition : Expr) (body : List Stmt) (location : Option Location)
  deriving Inhabited

/-- A whole model. -/
structure Program where
  statements : List Stmt
  location : Option Location
  deriving Inhabited

/-- Equality of two constants with the marks of the places they were written at. -/
def Number.same (v : Number) (m : Nat) (w : Number) (n : Nat) : Bool :=
  v.equal w || (v.isNaN && w.isNaN && m == n)

namespace Expr

/-- A constant that was not written but computed. -/
def ofNumber (value : Number) : Expr := literal value 0

/-- Where an expression was written. Constants and names have no place of their own. -/
def location : Expr → Option Location
  | literal _ _ | name _ => none
  | index _ _ l | call _ _ l | range _ _ l | stepped _ _ _ l | colon l | array _ _ l => l

mutual

/-- Equality of expressions, wherever they were written. -/
def same : Expr → Expr → Bool
  | literal v m, literal w n => v.same m w n
  | name x, name y => x == y
  | index a is _, index b js _ => same a b && sameAll is js
  | call f xs _, call g ys _ => f == g && sameAll xs ys
  | range a b _, range c d _ => same a c && same b d
  | stepped a b s _, stepped c d t _ => same a c && same b d && same s t
  | colon _, colon _ => true
  | array xs s _, array ys t _ => sameAll xs ys && s == t
  | _, _ => false

/-- Equality of lists of expressions. -/
def sameAll : List Expr → List Expr → Bool
  | [], [] => true
  | x :: xs, y :: ys => same x y && sameAll xs ys
  | _, _ => false

end

end Expr

namespace Stmt

/-- Where a statement was written. -/
def location : Stmt → Option Location
  | assign _ _ l | sample _ _ l | loop _ _ _ _ l | branch _ _ l => l

/-- Whether a statement defines a single node. -/
def isFlat : Stmt → Bool
  | assign .. | sample .. => true
  | loop .. | branch .. => false

mutual

/-- Equality of statements, wherever they were written. -/
def same : Stmt → Stmt → Bool
  | assign a b _, assign c d _ => a.same c && b.same d
  | sample a b _, sample c d _ => a.same c && b.same d
  | loop i a b body _, loop j c d body' _ => i == j && a.same c && b.same d && sameAll body body'
  | branch c body _, branch d body' _ => c.same d && sameAll body body'
  | _, _ => false

/-- Equality of lists of statements. -/
def sameAll : List Stmt → List Stmt → Bool
  | [], [] => true
  | x :: xs, y :: ys => same x y && sameAll xs ys
  | _, _ => false

end

end Stmt

/-- Equality of programs, wherever they were written. -/
def Program.same (p q : Program) : Bool := Stmt.sameAll p.statements q.statements

end PlateModel
