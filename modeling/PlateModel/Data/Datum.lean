import PlateModel.Assoc
import PlateModel.Number.Basic
import PlateModel.Text.Quoted

/-!
# Data as given

What can be bound to a name before it is known whether it makes sense: numbers, missing values,
texts, lists and tables. Only numbers, missing values and rectangular lists of these are data of a
model; everything else ends up in a message, in the form `shown?` gives it.

* `Datum.rectangle`: the longest rectangular shape of nested lists, and the cells in it.
-/

namespace PlateModel

/-- A value as it is given, suitable or not. -/
inductive Datum
  | number (n : Number)
  | missing
  /-- A text by its code points. -/
  | text (codes : List Nat)
  | list (items : List Datum)
  | table (entries : List (List Nat × Datum))
  deriving Inhabited

namespace Datum

/-- The word for what a datum is. -/
def kindName : Datum → String
  | number (.int _) => "int"
  | number (.real _) => "float"
  | number (.truth _) => "bool"
  | missing => "NoneType"
  | text _ => "str"
  | list _ => "list"
  | table _ => "dict"

mutual

/-- A datum as messages show it; none if it holds an integer with too many digits. -/
def shown? : Datum → Option String
  | number n => n.text?
  | missing => some "None"
  | text codes => some (Text.quotedPoints codes)
  | list items => (shownItems? items).map fun ts => "[" ++ ", ".intercalate ts ++ "]"
  | table entries => (shownEntries? entries).map fun ts => "\x7b" ++ ", ".intercalate ts ++ "\x7d"

def shownItems? : List Datum → Option (List String)
  | [] => some []
  | d :: rest =>
    match shown? d, shownItems? rest with
    | some t, some ts => some (t :: ts)
    | _, _ => none

def shownEntries? : List (List Nat × Datum) → Option (List String)
  | [] => some []
  | (k, d) :: rest =>
    match shown? d, shownEntries? rest with
    | some t, some ts => some ((Text.quotedPoints k ++ ": " ++ t) :: ts)
    | _, _ => none

end

/-- Whether there is no value: nothing is given, or what is given is not a number. -/
def isMissing : Datum → Bool
  | missing => true
  | number n => n.isNaN
  | _ => false

/-- How many items a list has. -/
def length? : Datum → Option Nat
  | list items => some items.length
  | _ => none

/-- The items of a list. -/
def items : Datum → List Datum
  | list ds => ds
  | _ => []

/-- The length that all of some data have, if they are lists of one length. -/
def commonLength? : List Datum → Option Nat
  | [] => none
  | d :: rest => d.length?.filter fun n => rest.all (·.length? = some n)

/-- The extents of the nested lists below some cells as long as they agree, along at most so many
axes, and the cells that are left. -/
def extents : Nat → List Datum → List Nat × List Datum
  | 0, cells => ([], cells)
  | axes + 1, cells =>
    match commonLength? cells with
    | none => ([], cells)
    | some n =>
      let (shape, inner) := extents axes (cells.flatMap items)
      (n :: shape, inner)

/-- An array has at most so many axes. -/
def maxRank : Nat := 64

/-- The longest rectangular shape of a list, and its cells in row-major order. -/
def rectangle (d : Datum) : List Nat × List Datum := extents maxRank [d]

end Datum

end PlateModel
