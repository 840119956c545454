import PlateModel.Tensor.Elementwise

/-!
# Operators on values

Plain values are combined exactly. If one operand is an array or a cell of one, the other becomes an
array as well, and the operator works cell by cell. The logical operators look at the truth of both
operands and give a truth value, except on arrays.

* `BinaryOp.apply`, `UnaryOp.apply`: the operators.
-/

namespace PlateModel

namespace Value

/-- Whether a value follows the arithmetic of arrays. -/
def isOfArray : Value → Bool
  | cell .. | tensor _ => true
  | _ => false

end Value

namespace Tensor

open Value

/-- Powers of arrays of floats that have a function of their own: the root, the square and the
reciprocal. -/
def directPower? (t : Tensor Value) (exponent : Value) : Option (Tensor Value) :=
  let onCells (f : Float → Float) (g : Complex → Complex) : Option (Tensor Value) :=
    match t.kind with
    | .half | .real => some (t.map t.kind fun c => Value.float (t.kind.roundFloat (f c.toFloat)))
    | .complex => some (t.map .complex fun c => complex (g c.toComplex))
    | _ => none
  match exponent with
  | number (.int 2) => onCells (fun x => x * x) fun z => z.mul z
  | number (.int (-1)) => onCells (fun x => 1.0 / x) Complex.one.quotient
  | number (.real x) => if x == 0.5 then onCells Float.sqrt Complex.sqrt else none
  | _ => none

end Tensor

namespace BinaryOp

open Value

/-- An arithmetic operator on operands of which one is an array or a cell. -/
def onArrays (op : BinaryOp) (a b : Value) : Except Failure Value := do
  return ofTensor (← Operand.arith op (← Operand.ofValue a) (← Operand.ofValue b))

/-- An arithmetic operator. Beside a cell a list or a text is repeated by a product. -/
def arithmetic (op : BinaryOp) (a b : Value) : Except Failure Value :=
  match op, a, b with
  | mul, cell .., .list _ | mul, cell .., text _ | mul, .list _, cell .. | mul, text _, cell .. =>
    mul.onSequences a b
  | pow, tensor t, b =>
    match t.directPower? b with
    | some r => .ok (ofTensor r)
    | none => pow.onArrays a b
  | op, a, b => if a.isOfArray || b.isOfArray then op.onArrays a b else op.onPlain a b

/-- Whether two values without axes are a text and something else than a text. -/
def isTextBesideOther (a b : Value) : Bool :=
  let isScalar (v : Value) : Bool :=
    match v with
    | .list _ => false
    | tensor t => t.shape.isEmpty
    | _ => true
  isScalar a && isScalar b && a.kind.join b.kind = .text && a.kind ≠ b.kind

/-- A comparison. A cell is never missing, and it differs from a text. -/
def comparison (op : BinaryOp) (a b : Value) : Except Failure Value :=
  match a, b with
  | cell .., missing | missing, cell .. => (op.equality false).map truth
  | a, b =>
    if !(a.isOfArray || b.isOfArray) then (op.comparePlain a b).map truth
    else if isTextBesideOther a b then (op.equality false).map truth
    else do return ofTensor (← Operand.comparison op (← Operand.ofValue a) (← Operand.ofValue b))

/-- A logical operator. The second operand need not have a truth value if the first decides. -/
def logical (op : BinaryOp) (a b : Value) : Except Failure Value :=
  if a.isTensor || b.isTensor then do
    return ofTensor (← Operand.logical op (← Operand.ofValue a) (← Operand.ofValue b))
  else do
    let p ← a.isTrue
    if p = (op = or) then return truth p
    return truth (← b.isTrue)

/-- A binary operator on two values. -/
def apply (op : BinaryOp) (a b : Value) : Except Failure Value :=
  match op with
  | add | sub | mul | div | pow => op.arithmetic a b
  | eq | ne | lt | le | gt | ge => op.comparison a b
  | and | or => op.logical a b

end BinaryOp

namespace UnaryOp

open Value

/-- A unary operator on a value. -/
def apply (op : UnaryOp) (a : Value) : Except Failure Value :=
  match op, a with
  | neg, cell k c => (Tensor.single k c).neg.map ofTensor
  | neg, tensor t => t.neg.map ofTensor
  | pos, cell k c => (Tensor.single k c).pos.map ofTensor
  | pos, tensor t => t.pos.map ofTensor
  | not, tensor t => t.not.map ofTensor
  | not, cell _ c => .ok (truth !c.cellTruth)
  | op, a => op.onPlain a

end UnaryOp

end PlateModel
