import PlateModel.Model.Tree

/-!
# The names of a tree

`names` lists every occurrence of a name in the order of writing, `distinctNames` each name once, at
its first appearance. A loop variable counts where its body mentions it.
-/

namespace PlateModel

/-- The elements of a list, each at its first appearance only. -/
def firstAppearances (xs : List String) : List String :=
  (xs.foldl (fun seen x => if seen.contains x then seen else x :: seen) []).reverse

namespace Expr

mutual

/-- Every occurrence of a name. -/
def names : Expr → List String
  | literal _ _ => []
  | name x => [x]
  | index base is _ => names base ++ namesOfAll is
  | call _ args _ => namesOfAll args
  | range a b _ => names a ++ names b
  | stepped a b s _ => names a ++ (names b ++ names s)
  | colon _ => []
  | array xs _ _ => namesOfAll xs

/-- Every occurrence of a name in some expressions. -/
def namesOfAll : List Expr → List String
  | [] => []
  | x :: xs => names x ++ namesOfAll xs

end

/-- The names of an expression in the order of first appearance. -/
def distinctNames (e : Expr) : List String := firstAppearances e.names

end Expr

namespace Stmt

mutual

/-- Every occurrence of a name. -/
def names : Stmt → List String
  | assign lhs rhs _ | sample lhs rhs _ => lhs.names ++ rhs.names
  | loop _ lower upper body _ => lower.names ++ (upper.names ++ namesOfAll body)
  | branch condition body _ => condition.names ++ namesOfAll body

/-- Every occurrence of a name in some statements. -/
def namesOfAll : List Stmt → List String
  | [] => []
  | s :: rest => names s ++ namesOfAll rest

end

end Stmt

/-- The names of a program in the order of first appearance. -/
def Program.distinctNames (p : Program) : List String :=
  firstAppearances (Stmt.namesOfAll p.statements)

end PlateModel
