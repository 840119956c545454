import PlateModel.Diagnostic.Fault
import PlateModel.Model.Operator

/-!
# Link functions

A link function on the left-hand side of a logical definition is the inverse of a function on its
right-hand side: `log(x) = e` means `x = exp(e)`.

* `Program.unlink`: a program without link functions on left-hand sides.
-/

namespace PlateModel

namespace Stmt

/-- A logical definition whose left-hand side is a call, without the call. -/
def unlinkAssign (f : String) (args : List Expr) (rhs : Expr) (l : Option Location) :
    Except Fault Stmt :=
  match links.lookup f, args with
  | some inverse, [lhs] => .ok (assign lhs (.call inverse [rhs] rhs.location) l)
  | _, _ => .error (.model (.unknownLink f) l)

mutual

/-- A statement without link functions on left-hand sides. -/
def unlink : Stmt → Except Fault Stmt
  | assign (.call f args _) rhs l => unlinkAssign f args rhs l
  | sample (.call f _ _) _ l => .error (.model (.linkInSample f) l)
  | loop i lower upper body l => do return loop i lower upper (← unlinkAll body) l
  | branch condition body l => do return branch condition (← unlinkAll body) l
  | s => .ok s

/-- Some statements without link functions on left-hand sides. -/
def unlinkAll : List Stmt → Except Fault (List Stmt)
  | [] => .ok []
  | s :: rest => do
    let s ← unlink s
    return s :: (← unlinkAll rest)

end

end Stmt

/-- A program without link functions on left-hand sides. -/
def Program.unlink (p : Program) : Except Fault Program :=
  (Stmt.unlinkAll p.statements).map fun statements => { p with statements }

end PlateModel
