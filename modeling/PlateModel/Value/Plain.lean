import PlateModel.Model.Operator
import PlateModel.Value.Basic

/-!
# Operators on plain values

Two plain values are combined exactly. Lists and texts can be joined and repeated and are compared
in lexicographic order. Distributions and missing values have no arithmetic, but all values can be
told apart, and all count as true or false.

* `BinaryOp.onPlain`, `BinaryOp.comparePlain`, `UnaryOp.onPlain`: the operators.
-/

namespace PlateModel

namespace Value

mutual

/-- Equality of plain values. No distribution equals another one. -/
def same : Value → Value → Bool
  | number m, number n => m.equal n
  | number n, complex z | complex z, number n => z.im == 0.0 && n.equal (.real z.re)
  | complex y, complex z => y.equal z
  | missing, missing => true
  | emptyTable, emptyTable => true
  | text s, text t => s == t
  | list xs, list ys => sameAll xs ys
  | _, _ => false

/-- Equality of lists. -/
def sameAll : List Value → List Value → Bool
  | [], [] => true
  | x :: xs, y :: ys => same x y && sameAll xs ys
  | _, _ => false

end

/-- The order of two texts by their characters. -/
def textOrder (s t : String) : Ordering :=
  if s < t then .lt else if s = t then .eq else .gt

/-- A plain number as a complex number. -/
def complex? : Value → Except Failure Complex
  | complex z => .ok z
  | number n => Complex.ofNumber n
  | _ => .error .unsuitableKind

/-- The integer that a plain value or a cell of words is. -/
def count? : Value → Option Int
  | number n => n.integer?
  | cell .truth _ => none
  | cell _ (number n) => n.integer?
  | _ => none

/-- Whether a value can be joined and repeated. -/
def isSequence : Value → Bool
  | list _ | text _ => true
  | _ => false

/-- A list or a text repeated; it vanishes if the number is negative. -/
def repeated (i : Int) : Value → Except Failure Value
  | list xs =>
    if !CellKind.word.fits i then .error .overflow
    else .ok (list (if xs.isEmpty then [] else (List.replicate i.toNat xs).flatten))
  | text s =>
    if !CellKind.word.fits i then .error .overflow
    else .ok (text (if s = "" then "" else String.join (List.replicate i.toNat s)))
  | _ => .error .unsuitableKind

end Value

namespace BinaryOp

open Value

/-- Whether an operator compares its operands. -/
def isComparison : BinaryOp → Bool
  | eq | ne | lt | le | gt | ge => true
  | _ => false

/-- What a comparison says of the order of its operands, none if there is no order. -/
def holds (op : BinaryOp) (order : Option Ordering) : Bool :=
  match op with
  | eq => order == some .eq
  | ne => order != some .eq
  | lt => order == some .lt
  | le => order == some .lt || order == some .eq
  | gt => order == some .gt
  | ge => order == some .gt || order == some .eq
  | _ => false

/-- What an operator says of equal or different values that have no order. -/
def equality (op : BinaryOp) (same : Bool) : Except Failure Bool :=
  match op with
  | eq => .ok same
  | ne => .ok !same
  | _ => .error .unsuitableKind

/-- An arithmetic operator on two numbers. -/
def onNumbers (op : BinaryOp) (a b : Number) : Except Failure (Number ⊕ Complex) :=
  match op with
  | add => (a.add b).map .inl
  | sub => (a.sub b).map .inl
  | mul => (a.mul b).map .inl
  | div => (a.div b).map .inl
  | pow => a.pow b
  | _ => .error .unsuitableKind

/-- An arithmetic operator on two complex numbers. -/
def onComplex (op : BinaryOp) (y z : Complex) : Except Failure Complex :=
  match op with
  | add => .ok (y.add z)
  | sub => .ok (y.sub z)
  | mul => .ok (y.mul z)
  | div => y.div z
  | pow => y.pow z
  | _ => .error .unsuitableKind

/-- Joining and repeating, where an operator means that. -/
def onSequences (op : BinaryOp) (a b : Value) : Except Failure Value :=
  match op, a, b with
  | add, list xs, list ys => .ok (list (xs ++ ys))
  | add, text s, text t => .ok (text (s ++ t))
  | mul, a, b =>
    match a.isSequence, a.count?, b.count? with
    | true, _, some i => a.repeated i
    | false, some i, _ => b.repeated i
    | _, _, _ => .error .unsuitableKind
  | _, _, _ => .error .unsuitableKind

/-- An arithmetic operator on two plain values. -/
def onPlain (op : BinaryOp) (a b : Value) : Except Failure Value :=
  match a, b with
  | number m, number n =>
    match op.onNumbers m n with
    | .error e => .error e
    | .ok (.inl r) => .ok (number r)
    | .ok (.inr z) => .ok (complex z)
  | complex _, _ | _, complex _ => do return complex (← op.onComplex (← a.complex?) (← b.complex?))
  | a, b => op.onSequences a b

/-- A comparison of two plain values; only equality is defined for all. Lists are compared at the
first place where they differ. -/
def comparePlain (op : BinaryOp) : Value → Value → Except Failure Bool
  | number m, number n => .ok (op.holds (m.compare n))
  | text s, text t => .ok (op.holds (some (textOrder s t)))
  | list xs, list ys =>
    if op = eq || op = ne then op.equality (sameAll xs ys) else ofLists xs ys
  | a, b => op.equality (a.same b)
where
  /-- A comparison of two lists. -/
  ofLists : List Value → List Value → Except Failure Bool
    | [], [] => .ok (op.holds (some .eq))
    | [], _ :: _ => .ok (op.holds (some .lt))
    | _ :: _, [] => .ok (op.holds (some .gt))
    | x :: xs, y :: ys => if x.same y then ofLists xs ys else comparePlain op x y

/-- A logical operator on two plain values: the operand that decides. -/
def deciding (op : BinaryOp) (a b : Value) : Value :=
  if a.cellTruth = (op = or) then a else b

end BinaryOp

namespace UnaryOp

open Value

/-- A unary operator on a plain value. -/
def onPlain (op : UnaryOp) (a : Value) : Except Failure Value :=
  match op, a with
  | neg, number n => .ok (number n.neg)
  | neg, complex z => .ok (complex z.neg)
  | pos, number n => .ok (number n.pos)
  | pos, complex z => .ok (complex z)
  | not, a => .ok (truth !a.cellTruth)
  | _, _ => .error .unsuitableKind

end UnaryOp

end PlateModel
