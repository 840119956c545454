/-!
# Operators and link functions

The closed set of operators. In a tree an operator is the call of its symbol with one or two
arguments; any other number of arguments makes it an ordinary, unknown function.
-/

namespace PlateModel

inductive BinaryOp
  | add | sub | mul | div | pow
  | eq | ne | lt | le | gt | ge
  | and | or
  deriving Repr, DecidableEq

inductive UnaryOp
  | neg | pos | not
  deriving Repr, DecidableEq

namespace BinaryOp

def symbol : BinaryOp → String
  | add => "+"
  | sub => "-"
  | mul => "*"
  | div => "/"
  | pow => "^"
  | eq => "=="
  | ne => "!="
  | lt => "<"
  | le => "<="
  | gt => ">"
  | ge => ">="
  | and => "&&"
  | or => "||"

def all : List BinaryOp := [add, sub, mul, div, pow, eq, ne, lt, le, gt, ge, and, or]

/-- How tightly an operator binds; a higher number binds tighter. -/
def precedence : BinaryOp → Nat
  | or => 1
  | and => 2
  | eq | ne => 3
  | lt | le | gt | ge => 4
  | add | sub => 5
  | mul | div => 6
  | pow => 8

end BinaryOp

namespace UnaryOp

def symbol : UnaryOp → String
  | neg => "-"
  | pos => "+"
  | not => "!"

def all : List UnaryOp := [neg, pos, not]

/-- Unary operators bind tighter than all binary ones but the power. -/
def precedence : Nat := 7

end UnaryOp

/-- An operator of one or two operands. -/
inductive Operator
  | binary (op : BinaryOp)
  | unary (op : UnaryOp)
  deriving Repr, DecidableEq

namespace Operator

/-- The operator that a call of `symbol` with so many arguments denotes. -/
def of? (symbol : String) (arity : Nat) : Option Operator :=
  if arity = 2 then (BinaryOp.all.find? (·.symbol = symbol)).map binary
  else if arity = 1 then (UnaryOp.all.find? (·.symbol = symbol)).map unary
  else none

def precedence : Operator → Nat
  | binary op => op.precedence
  | unary _ => UnaryOp.precedence

end Operator

/-! ## Link functions

A link function on the left-hand side of a logical definition stands for its inverse on the
right-hand side.
-/

/-- The link functions in alphabetical order, each with its inverse. -/
def links : List (String × String) :=
  [("cloglog", "cexpexp"), ("log", "exp"), ("logit", "logistic"), ("probit", "phi")]

end PlateModel
