import PlateModel.Decimal.Basic
import PlateModel.Text.Classes

/-!
# S-expressions

The trees that model text is read into, apart from what they mean as models. An atom is an integer,
a float, a symbol or a string; a compound is a round list, a square list or a quotation. A float
carries a `mark`, the place where it was written, because two written floats that are not numbers
are different constants.
-/

namespace PlateModel

/-- The two kinds of brackets. -/
inductive Bracket
  | round
  | square
  deriving Repr, DecidableEq

namespace Bracket

def opening : Bracket → Char
  | round => '('
  | square => '['

def closing : Bracket → Char
  | round => ')'
  | square => ']'

end Bracket

/-- An S-expression. -/
inductive Sexpr
  | int (i : Int)
  | real (x : Float) (mark : Nat)
  | symbol (s : String)
  | string (s : String)
  | list (items : List Sexpr)
  | square (items : List Sexpr)
  | quoted (item : Sexpr)
  deriving Inhabited

namespace Sexpr

/-- The text of a symbol. -/
def symbol? : Sexpr → Option String
  | symbol s => some s
  | _ => none

/-- The expression that a bracket closes. -/
def ofBracket : Bracket → List Sexpr → Sexpr
  | .round, items => list items
  | .square, items => square items

/-- A character of a string as it is written between double quotes. -/
def escapeString (c : Char) : List Char :=
  match c with
  | '\\' => ['\\', '\\']
  | '"' => ['\\', '"']
  | '\x08' => ['\\', 'b']
  | '\x0c' => ['\\', 'f']
  | '\n' => ['\\', 'n']
  | '\r' => ['\\', 'r']
  | '\t' => ['\\', 't']
  | c => [c]

/-- What the character after a backslash stands for inside a string; one without a meaning keeps its
backslash. -/
def unescapeString (c : Char) : List Char :=
  match c with
  | '\\' => ['\\']
  | '"' => ['"']
  | 'b' => ['\x08']
  | 'f' => ['\x0c']
  | 'n' => ['\n']
  | 'r' => ['\r']
  | 't' => ['\t']
  | c => ['\\', c]

/-- The characters that a symbol may hold only behind a backslash. -/
def isSpecial (c : Char) : Bool :=
  c = '\\' || c = '\'' || c = '\x60' || c = '"' || c = '(' || c = ')' || c = '[' || c = ']' ||
    c = ' ' || c = ',' || c = '?' || c = ';' || c = '#'

/-- A character of a symbol as it is written. -/
def escapeSymbol (c : Char) : List Char := if isSpecial c then ['\\', c] else [c]

/-- What the character after a backslash stands for inside an atom. -/
def unescapeSymbol (c : Char) : List Char := if isSpecial c then [c] else ['\\', c]

/-! ## Writing

`write` puts an expression on one line. `pretty` does so as long as the line has at most `lineLimit`
characters and none of its atoms holds a line feed; otherwise each item after the first gets a line
of its own, two columns further in. -/

/-- The text of an atom; empty for a compound. -/
def writeAtom : Sexpr → List Char
  | int i => (Decimal.ofInt i).toList
  | real x _ => (Decimal.ofFloat x).toList
  | symbol s => s.toList.flatMap escapeSymbol
  | string s => '"' :: s.toList.flatMap escapeString ++ ['"']
  | _ => []

/-- The characters of some texts with separators between them. -/
def joinWith (separator : List Char) : List (List Char) → List Char
  | [] => []
  | [x] => x
  | x :: y :: rest => x ++ separator ++ joinWith separator (y :: rest)

mutual

/-- An expression on one line. -/
def writeChars : Sexpr → List Char
  | list items => '(' :: joinWith [' '] (writeAll items) ++ [')']
  | square items => '[' :: joinWith [' '] (writeAll items) ++ [']']
  | quoted item => '\'' :: writeChars item
  | x => writeAtom x

/-- Several expressions, each on one line. -/
def writeAll : List Sexpr → List (List Char)
  | [] => []
  | x :: rest => writeChars x :: writeAll rest

end

/-- The text of an expression on one line. -/
def write (x : Sexpr) : String := String.ofList (writeChars x)

/-- The longest list that stays on one line. -/
def lineLimit : Nat := 100

/-- A list from the texts of its items: on one line if it fits, else one item a line. -/
def layoutList (depth : Nat) (parts : List (List Char)) : List Char :=
  let oneLine := '(' :: joinWith [' '] parts ++ [')']
  if oneLine.length ≤ lineLimit ∧ !oneLine.contains '\n' then oneLine
  else '(' :: joinWith ('\n' :: List.replicate (2 * (depth + 1)) ' ') parts ++ [')']

mutual

/-- An expression that begins `2 * depth` columns in. Only round lists are broken into lines. -/
def prettyChars (depth : Nat) : Sexpr → List Char
  | list (x :: rest) => layoutList depth (prettyChars (depth + 1) x :: prettyAll (depth + 1) rest)
  | x => writeChars x

/-- Several expressions at one depth. -/
def prettyAll (depth : Nat) : List Sexpr → List (List Char)
  | [] => []
  | x :: rest => prettyChars depth x :: prettyAll depth rest

end

/-- The text of an expression, broken into lines where it is long. -/
def pretty (x : Sexpr) : String := String.ofList (prettyChars 0 x)

end Sexpr

end PlateModel
