import PlateModel.Model.Tree

/-!
# Substitution of expressions for names

Every free occurrence of a name in the domain of a mapping is replaced by its expression. A loop
binds its variable in its body and not in its bounds, so the mapping loses that name inside the
body.
-/

namespace PlateModel

/-- Expressions for names; the first entry for a name counts. -/
abbrev Mapping := List (String × Expr)

namespace Mapping

/-- The mapping without a name. -/
def without (m : Mapping) (x : String) : Mapping := m.filter (·.1 ≠ x)

end Mapping

namespace Expr

mutual

/-- The expression with the names of the mapping replaced. -/
def substitute (m : Mapping) : Expr → Expr
  | literal v k => literal v k
  | name x => (m.lookup x).getD (name x)
  | index base is l => index (substitute m base) (substituteAll m is) l
  | call f args l => call f (substituteAll m args) l
  | range a b l => range (substitute m a) (substitute m b) l
  | stepped a b s l => stepped (substitute m a) (substitute m b) (substitute m s) l
  | colon l => colon l
  | array xs shape l => array (substituteAll m xs) shape l

/-- Substitution in every expression of a list. -/
def substituteAll (m : Mapping) : List Expr → List Expr
  | [] => []
  | x :: xs => substitute m x :: substituteAll m xs

end

end Expr

namespace Stmt

mutual

/-- The statement with the free names of the mapping replaced. -/
def substitute (m : Mapping) : Stmt → Stmt
  | assign lhs rhs l => assign (lhs.substitute m) (rhs.substitute m) l
  | sample lhs rhs l => sample (lhs.substitute m) (rhs.substitute m) l
  | loop i lower upper body l =>
    loop i (lower.substitute m) (upper.substitute m) (substituteAll (m.without i) body) l
  | branch condition body l => branch (condition.substitute m) (substituteAll m body) l

/-- Substitution in every statement of a list. -/
def substituteAll (m : Mapping) : List Stmt → List Stmt
  | [] => []
  | s :: rest => substitute m s :: substituteAll m rest

end

end Stmt

/-- The program with the free names of the mapping replaced. -/
def Program.substitute (m : Mapping) (p : Program) : Program :=
  { p with statements := Stmt.substituteAll m p.statements }

/-! ## Heights of statements

The height of a statement is how deep loops and conditionals are nested in it; definitions have
height zero. Substitution keeps heights (`height_substitute`). -/

namespace Stmt

mutual

/-- How deep loops and conditionals are nested in a statement. -/
def height : Stmt → Nat
  | assign .. | sample .. => 0
  | loop _ _ _ body _ | branch _ body _ => maxHeight body + 1

/-- The greatest height of some statements. -/
def maxHeight : List Stmt → Nat
  | [] => 0
  | s :: rest => max (height s) (maxHeight rest)

end

/-- The heights of some statements in order. -/
def heights (ss : List Stmt) : List Nat := ss.map height

theorem height_le_maxHeight {s : Stmt} {ss : List Stmt} (h : s ∈ ss) : s.height ≤ maxHeight ss := by
  induction ss with
  | nil => cases h
  | cons t rest ih =>
    rcases List.mem_cons.1 h with rfl | h
    · exact Nat.le_max_left ..
    · exact Nat.le_trans (ih h) (Nat.le_max_right ..)

mutual

theorem height_substitute (m : Mapping) : ∀ s : Stmt, (s.substitute m).height = s.height
  | assign .. | sample .. => rfl
  | loop i _ _ body _ => by
    simp only [substitute, height, maxHeight_substituteAll (m.without i) body]
  | branch _ body _ => by simp only [substitute, height, maxHeight_substituteAll m body]

theorem maxHeight_substituteAll (m : Mapping) :
    ∀ ss : List Stmt, maxHeight (substituteAll m ss) = maxHeight ss
  | [] => rfl
  | s :: rest => by
    simp only [substituteAll, maxHeight, height_substitute m s, maxHeight_substituteAll m rest]

end

end Stmt

end PlateModel
