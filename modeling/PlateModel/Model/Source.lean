import PlateModel.Model.Tree
import PlateModel.Model.Operator
import PlateModel.Text.Classes

/-!
# Model source text

Trees as the source text of the modelling language. An operand is put into parentheses exactly if it
is an operator call that binds more weakly than its place demands: the left operand of a binary
operator may bind as weakly as the operator itself, the right operand must bind tighter.
-/

namespace PlateModel

namespace Expr

/-- The operator that an expression applies, if it is an operator call. -/
def operator? : Expr → Option Operator
  | call f args _ => Operator.of? f args.length
  | _ => none

/-- The text of an operand at a place that demands at least the precedence `least`. -/
def operandText (least : Nat) (e : Expr) (text : String) : String :=
  match e.operator? with
  | some op => if op.precedence < least then "(" ++ text ++ ")" else text
  | none => text

mutual

/-- The source text of an expression. -/
def source : Expr → String
  | literal v _ => v.source
  | name x => x
  | index base is _ => source base ++ "[" ++ ", ".intercalate (sources is) ++ "]"
  | call f args _ =>
    match Operator.of? f args.length, args, sources args with
    | some (.binary op), [a, b], [s, t] =>
      operandText op.precedence a s ++ " " ++ op.symbol ++ " " ++
        operandText (op.precedence + 1) b t
    | some (.unary op), [a], [s] => op.symbol ++ operandText UnaryOp.precedence a s
    | _, _, texts => f ++ "(" ++ ", ".intercalate texts ++ ")"
  | range a b _ => source a ++ ":" ++ source b
  | stepped a b s _ => source a ++ ":" ++ source s ++ ":" ++ source b
  | colon _ => ""
  | array xs _ _ => "c(" ++ ", ".intercalate (sources xs) ++ ")"

/-- The source texts of some expressions. -/
def sources : List Expr → List String
  | [] => []
  | x :: xs => source x :: sources xs

end

end Expr

namespace Stmt

/-- The blanks before a statement inside so many loops and conditionals. -/
def pad (depth : Nat) : String := String.ofList (List.replicate (4 * depth) ' ')

mutual

/-- The source text of a statement inside `depth` loops and conditionals. -/
def sourceAt (depth : Nat) : Stmt → String
  | assign lhs rhs _ => pad depth ++ lhs.source ++ " = " ++ rhs.source
  | sample lhs rhs _ => pad depth ++ lhs.source ++ " ~ " ++ rhs.source
  | loop i lower upper body _ =>
    pad depth ++ "for (" ++ i ++ " in " ++ lower.source ++ ":" ++ upper.source ++ ") \x7b\n" ++
      "\n".intercalate (sourcesAt (depth + 1) body) ++ "\n" ++ pad depth ++ "\x7d"
  | branch condition body _ =>
    pad depth ++ "if (" ++ condition.source ++ ") \x7b\n" ++
      "\n".intercalate (sourcesAt (depth + 1) body) ++ "\n" ++ pad depth ++ "\x7d"

/-- The source texts of some statements. -/
def sourcesAt (depth : Nat) : List Stmt → List String
  | [] => []
  | s :: rest => sourceAt depth s :: sourcesAt depth rest

end

/-- The source text of a statement. -/
def source (s : Stmt) : String := s.sourceAt 0

/-- The first line of the source text of a statement, without blanks around it. -/
def headline (s : Stmt) : String :=
  let line := s.source.toList.takeWhile (· ≠ '\n')
  String.ofList ((line.dropWhile Text.isSpace).reverse.dropWhile Text.isSpace).reverse

end Stmt

/-- The source text of a program. -/
def Program.source (p : Program) : String := "\n".intercalate (Stmt.sourcesAt 0 p.statements)

end PlateModel
