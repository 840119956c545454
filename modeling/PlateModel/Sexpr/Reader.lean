import PlateModel.Sexpr.Token
import PlateModel.Text.Quoted

/-!
# Reading S-expressions

A list of tokens is read from left to right with the open brackets on a stack. An apostrophe waits
for the next expression of its list; a list or a text that ends before one comes is malformed.

* `parse`: the one expression of a text.
-/

namespace PlateModel.Sexpr

/-- Why a text is not one S-expression. -/
inductive ReadFailure
  /-- A bracket is still open where another one closes, or at the end of the text. -/
  | unclosed (expected : Bracket) (got : Option Bracket)
  /-- A bracket closes that none opened; the text from it on. -/
  | unopened (rest : String)
  /-- Nothing follows the apostrophe at this position. -/
  | loneApostrophe (position : Nat)
  | lexical (e : LexFailure)
  /-- The text holds no expression, or several. -/
  | notSingle
  deriving Repr, DecidableEq

/-- The wording of a failure. -/
def ReadFailure.message : ReadFailure → String
  | unclosed expected got =>
    let shown := match got with
      | some b => Text.quoted (String.singleton b.closing)
      | none => "None"
    "Not enough closing brackets. Expected " ++ Text.quoted (String.singleton expected.closing) ++
      " to be the last letter in the sexp. Got: " ++ shown
  | unopened rest =>
    "Too many closing brackets. Expected no character left in the sexp. Got: " ++ Text.quoted rest
  | loneApostrophe position =>
    "No s-exp is found after an apostrophe at position " ++ Nat.repr position
  | lexical .unclosedString => "'NoneType' object has no attribute 'start'"
  | lexical .endsInEscape => "string index out of range"
  | notSingle => ""

/-- A list that is being read: its items so far, the last one first, and the positions of the
apostrophes that wait for the next item, the last one first. -/
structure Frame where
  items : List Sexpr
  waiting : List Nat

namespace Frame

def empty : Frame := ⟨[], []⟩

/-- Adds an item, quoted once for each waiting apostrophe. -/
def push (f : Frame) (x : Sexpr) : Frame :=
  ⟨f.waiting.foldl (fun y _ => quoted y) x :: f.items, []⟩

/-- The items of a list that ends here. -/
def close (f : Frame) : Except ReadFailure (List Sexpr) :=
  match f.waiting with
  | position :: _ => .error (.loneApostrophe position)
  | [] => .ok f.items.reverse

end Frame

/-- Reads tokens into the innermost open list; `outer` holds the lists around it with the brackets
that opened the lists inside them. -/
def readTokens : List Token → Frame → List (Bracket × Frame) → Except ReadFailure (List Sexpr)
  | [], top, outer =>
    match top.close, outer with
    | .error e, _ => .error e
    | .ok items, [] => .ok items
    | .ok _, (b, _) :: _ => .error (.unclosed b none)
  | .leaf x :: rest, top, outer => readTokens rest (top.push x) outer
  | .apostrophe p :: rest, top, outer =>
    readTokens rest { top with waiting := p :: top.waiting } outer
  | .opening b :: rest, top, outer => readTokens rest Frame.empty ((b, top) :: outer)
  | .closing b text :: rest, top, outer =>
    match top.close, outer with
    | .error e, _ => .error e
    | .ok _, [] => .error (.unopened (String.ofList text))
    | .ok items, (opened, below) :: outer =>
      if opened = b then readTokens rest (below.push (ofBracket b items)) outer
      else .error (.unclosed opened (some b))
  | .failure e :: _, _, _ => .error (.lexical e)

/-- The one expression that a text writes. `base` is added to the marks of its floats. -/
def parse (base : Nat) (text : String) : Except ReadFailure Sexpr :=
  match readTokens (tokens base text) Frame.empty [] with
  | .error e => .error e
  | .ok [x] => .ok x
  | .ok _ => .error .notSingle

end PlateModel.Sexpr
