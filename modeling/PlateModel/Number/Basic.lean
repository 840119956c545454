import PlateModel.Decimal.Basic
import PlateModel.Decimal.Reading

/-!
# Numbers of the model language

A constant is an integer of any size, a binary64 float or a truth value. The three are different
kinds (`3` and `3.0` print differently), but they compare by value: `1`, `1.0` and `true` are equal,
and an integer is compared with the exact value of a float.

* `Number.compare`: the order of two numbers by value, none if one is not a number.
* `Number.same`: equality of constants as parts of expressions.
-/

namespace PlateModel

/-- A constant. -/
inductive Number
  | int (i : Int)
  | real (x : Float)
  | truth (b : Bool)
  deriving Inhabited

namespace Number

/-- The integer a number of an integral kind stands for; truth values count as 0 and 1. -/
def integer? : Number → Option Int
  | int i => some i
  | truth b => some (if b then 1 else 0)
  | real _ => none

/-- The nearest float; none if an integer is too large. -/
def toFloat? : Number → Option Float
  | real x => some x
  | truth b => some (if b then 1.0 else 0.0)
  | int i =>
    let x := Binary64.ofInt i
    if x.isInf then none else some x

/-- The nearest float, infinite for an integer that is too large. -/
def toFloat : Number → Float
  | real x => x
  | truth b => if b then 1.0 else 0.0
  | int i => Binary64.ofInt i

def isTruth : Number → Bool
  | truth _ => true
  | _ => false

/-- Whether a number counts as true: it is not zero. What is not a number is not zero. -/
def isTrue : Number → Bool
  | int i => i ≠ 0
  | real x => !(x == 0.0)
  | truth b => b

def isNaN : Number → Bool
  | real x => x.isNaN
  | _ => false

/-- The order of two numbers by exact value. -/
def compare (a b : Number) : Option Ordering :=
  match a, b with
  | real x, real y => Binary64.compareFloat x y
  | real x, b => b.integer?.bind fun i => (Binary64.compareInt i x).map Ordering.swap
  | a, real y => a.integer?.bind fun i => Binary64.compareInt i y
  | a, b => a.integer?.bind fun i => b.integer?.map fun j => Ord.compare i j

/-- Equality by value. -/
def equal (a b : Number) : Bool := a.compare b == some .eq

/-- Whether a number is an integer by value. -/
def isIntegral : Number → Bool
  | real x => Binary64.isIntegral x
  | _ => true

/-- The text of a number in model source. -/
def source : Number → String
  | int i => Decimal.ofInt i
  | real x => Decimal.ofFloat x
  | truth b => if b then "TRUE" else "FALSE"

/-- The text of a number in a message; none if an integer has too many digits. -/
def text? : Number → Option String
  | int i => Decimal.boundedInt? i
  | real x => some (Decimal.ofFloat x)
  | truth b => some (if b then "True" else "False")

end Number

end PlateModel
