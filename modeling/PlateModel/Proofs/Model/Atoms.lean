import PlateModel.Model.Tree

/-!
# The constants and names of a tree

A tree is an outline with constants and names in it, its atoms. A loop binds its variable in its
body, not in its bounds, so every name stands under the variables of the loops in whose bodies it
is; it is free if its own is not among them.

* `Tree`: expressions, statements and programs.
* `Tree.atoms`, `Tree.outline`: the atoms in order, and the tree without them.
* `Tree.Free`: a name stands in the tree where no loop binds it.
* `Tree.fill_outline`: a tree is its outline with its atoms in it.
-/

namespace PlateModel

/-! ## Atoms -/

/-- A constant, or a name with the variables of the loops in whose bodies it stands. -/
inductive Atom
  | literal (value : Number) (mark : Nat)
  | name (x : String) (bound : List String)

namespace Atom

/-- The constant or the name as an expression. -/
def expr : Atom → Expr
  | literal v k => .literal v k
  | name x _ => .name x

/-- The atom in the body of a loop. -/
def under (i : String) : Atom → Atom
  | literal v k => literal v k
  | name x bound => name x (i :: bound)

/-- The atom is a name, and no loop binds it. -/
def Free (x : String) (a : Atom) : Prop := ∃ bound, a = name x bound ∧ x ∉ bound

theorem map_expr_under (i : String) (as : List Atom) :
    (as.map (under i)).map expr = as.map expr := by
  rw [List.map_map]
  exact List.map_congr_left fun a _ => by cases a <;> rfl

end Atom

/-! ## Atoms and outlines of expressions -/

namespace Expr

mutual

/-- The constants and names of an expression in order. -/
def atoms : Expr → List Atom
  | literal v k => [.literal v k]
  | name x => [.name x []]
  | index base is _ => atoms base ++ atomsOfAll is
  | call _ args _ => atomsOfAll args
  | range a b _ => atoms a ++ atoms b
  | stepped a b s _ => atoms a ++ (atoms b ++ atoms s)
  | colon _ => []
  | array xs _ _ => atomsOfAll xs

/-- The constants and names of some expressions. -/
def atomsOfAll : List Expr → List Atom
  | [] => []
  | x :: xs => atoms x ++ atomsOfAll xs

end

/-- What stands in an outline for a constant or a name. -/
def hole : Expr := ofNumber (.int 0)

mutual

/-- The expression without its constants and names. -/
def outline : Expr → Expr
  | literal .. | name _ => hole
  | index base is l => index (outline base) (outlineAll is) l
  | call f args l => call f (outlineAll args) l
  | range a b l => range (outline a) (outline b) l
  | stepped a b s l => stepped (outline a) (outline b) (outline s) l
  | colon l => colon l
  | array xs shape l => array (outlineAll xs) shape l

/-- Some expressions without their constants and names. -/
def outlineAll : List Expr → List Expr
  | [] => []
  | x :: xs => outline x :: outlineAll xs

end

mutual

/-- The expression with other constants and names in the place of its own, and those that are left
over. -/
def fill : Expr → List Expr → Expr × List Expr
  | literal v k, as => (as.headD (literal v k), as.tail)
  | name x, as => (as.headD (name x), as.tail)
  | index base is l, as =>
    let (base, as) := fill base as
    let (is, as) := fillAll is as
    (index base is l, as)
  | call f args l, as =>
    let (args, as) := fillAll args as
    (call f args l, as)
  | range a b l, as =>
    let (a, as) := fill a as
    let (b, as) := fill b as
    (range a b l, as)
  | stepped a b s l, as =>
    let (a, as) := fill a as
    let (b, as) := fill b as
    let (s, as) := fill s as
    (stepped a b s l, as)
  | colon l, as => (colon l, as)
  | array xs shape l, as =>
    let (xs, as) := fillAll xs as
    (array xs shape l, as)

/-- Some expressions with other constants and names. -/
def fillAll : List Expr → List Expr → List Expr × List Expr
  | [], as => ([], as)
  | x :: xs, as =>
    let (x, as) := fill x as
    let (xs, as) := fillAll xs as
    (x :: xs, as)

end

mutual

/-- An expression is its outline with its constants and names in it. -/
theorem fill_outline : ∀ (e : Expr) (as : List Expr),
    e.outline.fill (e.atoms.map (·.expr) ++ as) = (e, as)
  | literal .., _ | name _, _ | colon _, _ => rfl
  | index base is l, as => by
    simp only [outline, atoms, fill, List.map_append, List.append_assoc, fill_outline base,
      fillAll_outlineAll is]
  | call f args l, as => by simp only [outline, atoms, fill, fillAll_outlineAll args]
  | range a b l, as => by
    simp only [outline, atoms, fill, List.map_append, List.append_assoc, fill_outline a,
      fill_outline b]
  | stepped a b s l, as => by
    simp only [outline, atoms, fill, List.map_append, List.append_assoc, fill_outline a,
      fill_outline b, fill_outline s]
  | array xs shape l, as => by simp only [outline, atoms, fill, fillAll_outlineAll xs]

theorem fillAll_outlineAll : ∀ (es as : List Expr),
    fillAll (outlineAll es) ((atomsOfAll es).map (·.expr) ++ as) = (es, as)
  | [], _ => rfl
  | e :: es, as => by
    simp only [outlineAll, atomsOfAll, fillAll, List.map_append, List.append_assoc,
      fill_outline e, fillAll_outlineAll es]

end

end Expr

/-! ## Atoms and outlines of statements -/

namespace Stmt

mutual

/-- The constants and names of a statement in order. The variable of a loop is bound in the body of
the loop, not in the bounds. -/
def atoms : Stmt → List Atom
  | assign lhs rhs _ | sample lhs rhs _ => lhs.atoms ++ rhs.atoms
  | loop i lower upper body _ =>
    lower.atoms ++ (upper.atoms ++ (atomsOfAll body).map (.under i))
  | branch condition body _ => condition.atoms ++ atomsOfAll body

/-- The constants and names of some statements. -/
def atomsOfAll : List Stmt → List Atom
  | [] => []
  | s :: rest => atoms s ++ atomsOfAll rest

end

mutual

/-- The statement without its constants and names. -/
def outline : Stmt → Stmt
  | assign lhs rhs l => assign lhs.outline rhs.outline l
  | sample lhs rhs l => sample lhs.outline rhs.outline l
  | loop i lower upper body l => loop i lower.outline upper.outline (outlineAll body) l
  | branch condition body l => branch condition.outline (outlineAll body) l

/-- Some statements without their constants and names. -/
def outlineAll : List Stmt → List Stmt
  | [] => []
  | s :: rest => outline s :: outlineAll rest

end

mutual

/-- The statement with other constants and names in the place of its own, and those that are left
over. -/
def fill : Stmt → List Expr → Stmt × List Expr
  | assign lhs rhs l, as =>
    let (lhs, as) := lhs.fill as
    let (rhs, as) := rhs.fill as
    (assign lhs rhs l, as)
  | sample lhs rhs l, as =>
    let (lhs, as) := lhs.fill as
    let (rhs, as) := rhs.fill as
    (sample lhs rhs l, as)
  | loop i lower upper body l, as =>
    let (lower, as) := lower.fill as
    let (upper, as) := upper.fill as
    let (body, as) := fillAll body as
    (loop i lower upper body l, as)
  | branch condition body l, as =>
    let (condition, as) := condition.fill as
    let (body, as) := fillAll body as
    (branch condition body l, as)

/-- Some statements with other constants and names. -/
def fillAll : List Stmt → List Expr → List Stmt × List Expr
  | [], as => ([], as)
  | s :: rest, as =>
    let (s, as) := fill s as
    let (rest, as) := fillAll rest as
    (s :: rest, as)

end

mutual

/-- A statement is its outline with its constants and names in it. -/
theorem fill_outline : ∀ (s : Stmt) (as : List Expr),
    s.outline.fill (s.atoms.map (·.expr) ++ as) = (s, as)
  | assign .., as | sample .., as => by
    simp only [outline, atoms, fill, List.map_append, List.append_assoc, Expr.fill_outline]
  | loop i lower upper body l, as => by
    simp only [outline, atoms, fill, List.map_append, List.append_assoc, Expr.fill_outline,
      Atom.map_expr_under, fillAll_outlineAll body]
  | branch condition body l, as => by
    simp only [outline, atoms, fill, List.map_append, List.append_assoc, Expr.fill_outline,
      fillAll_outlineAll body]

theorem fillAll_outlineAll : ∀ (ss : List Stmt) (as : List Expr),
    fillAll (outlineAll ss) ((atomsOfAll ss).map (·.expr) ++ as) = (ss, as)
  | [], _ => rfl
  | s :: rest, as => by
    simp only [outlineAll, atomsOfAll, fillAll, List.map_append, List.append_assoc,
      fill_outline s, fillAll_outlineAll rest]

end

end Stmt

/-! ## Trees -/

/-- Anything that names can stand in. -/
inductive Tree
  | expr (e : Expr)
  | stmt (s : Stmt)
  | program (p : Program)

namespace Tree

/-- The constants and names of a tree in order. -/
def atoms : Tree → List Atom
  | expr e => e.atoms
  | stmt s => s.atoms
  | program p => Stmt.atomsOfAll p.statements

/-- The tree without its constants and names. -/
def outline : Tree → Tree
  | expr e => expr e.outline
  | stmt s => stmt s.outline
  | program p => program { p with statements := Stmt.outlineAll p.statements }

/-- A name stands in the tree where no loop binds it. -/
def Free (x : String) (t : Tree) : Prop := ∃ a ∈ t.atoms, a.Free x

/-- The tree with other constants and names in the place of its own. -/
def fill : Tree → List Expr → Tree
  | expr e, as => expr (e.fill as).1
  | stmt s, as => stmt (s.fill as).1
  | program p, as => program { p with statements := (Stmt.fillAll p.statements as).1 }

/-- A tree is its outline with its constants and names in it. -/
theorem fill_outline (t : Tree) : t.outline.fill (t.atoms.map (·.expr)) = t := by
  rw [← List.append_nil (t.atoms.map _)]
  cases t with
  | expr e => simp only [outline, atoms, fill, Expr.fill_outline]
  | stmt s => simp only [outline, atoms, fill, Stmt.fill_outline]
  | program p => simp only [outline, atoms, fill, Stmt.fillAll_outlineAll]

end Tree

end PlateModel
