import PlateModel.Binary64.Sum
import PlateModel.Tensor.Elementwise

/-!
# Sums, means and extremes of arrays

Reductions of all cells of an array, or of the cells along one axis. The sum of words wraps; truth
values are counted. Cells of any kind at all are added and compared as plain values are, and texts
have neither sums nor extremes.

* `Tensor.sum`, `Tensor.mean`, `Tensor.extremeCell`: the reductions.
* `Tensor.extremes`: the greater or lesser of two arrays, cell by cell.
* `Tensor.dot`: the inner product.
-/

namespace PlateModel

namespace Tensor

open Value

/-- The number of an axis of so many; a negative one counts from the end. -/
def axisIndex (rank : Nat) (axis : Int) : Except Failure Nat :=
  let k := if axis < 0 then axis + rank else axis
  if k < 0 ∨ rank ≤ k then .error .unsuitableValue else .ok k.toNat

/-- The rows of an array along an axis, and the shape without it. -/
def rows (axis : Nat) (t : Tensor Value) : List (List Value) × List Nat :=
  let before := t.shape.take axis
  let extent := (t.shape[axis]?).getD 0
  let after := t.shape.drop (axis + 1)
  let slabs := Shape.blocks (extent * Shape.size after) (Shape.size before) t.cells
  let rowsOf (slab : List Value) : List (List Value) :=
    let lines := Shape.blocks (Shape.size after) extent slab
    (List.range (Shape.size after)).map fun j => lines.filterMap (·[j]?)
  (slabs.flatMap rowsOf, before ++ after)

/-- Reduces all cells, or the rows along an axis. -/
def reduce (k : CellKind) (f : List Value → Except Failure Value) (axis : Option Nat)
    (t : Tensor Value) : Except Failure (Tensor Value) :=
  match axis with
  | none => (f t.cells).map (single k)
  | some axis =>
    let (rows, shape) := t.rows axis
    (rows.mapM f).map fun cells => ⟨k, shape, cells⟩

/-- The sum of floats. -/
def sumFloats (cells : List Value) : Float := 0.0 + sumPairwise (cells.map Value.toFloat)

/-- The kind of the sums of cells of a kind. -/
def sumKind : CellKind → CellKind
  | .truth | .byte => .word
  | k => k

/-- The sum of some cells of one kind. -/
def sumCells (k : CellKind) (cells : List Value) : Except Failure Value :=
  match k with
  | .half | .real => .ok (Value.float (k.roundFloat (sumFloats cells)))
  | .complex => .ok (complex ((cells.map Value.toComplex).foldl Complex.add Complex.zero))
  | .truth | .byte | .word | .unsigned =>
    let k := sumKind k
    .ok (int (k.wrap ((cells.map (Value.toWord k)).foldl (· + ·) 0)))
  | .text => .error .unsuitableKind
  | .mixed =>
    match cells with
    | [] => .ok (int 0)
    | c :: rest => rest.foldlM BinaryOp.add.onPlain c

/-- The sums of all cells or of the rows along an axis. -/
def sum (axis : Option Nat) (t : Tensor Value) : Except Failure (Tensor Value) :=
  t.reduce (sumKind t.kind) (sumCells t.kind) axis

/-- The kind of the means of cells of a kind. -/
def meanKind : CellKind → CellKind
  | .truth | .byte | .word | .unsigned => .real
  | k => k

/-- The mean of some cells of one kind. -/
def meanCells (k : CellKind) (cells : List Value) : Except Failure Value :=
  match k with
  | .mixed | .text => do BinaryOp.div.onPlain (← sumCells k cells) (int cells.length)
  | .complex => do
    let total ← sumCells k cells
    return complex (total.toComplex.quotient ⟨Float.ofNat cells.length, 0.0⟩)
  | .half =>
    let total := Binary64.toSingle (sumFloats cells)
    let mean := Binary64.toSingle (total / Float.ofNat cells.length)
    .ok (Value.float (Binary64.toHalf mean))
  | _ => .ok (Value.float (sumFloats cells / Float.ofNat cells.length))

/-- The means of all cells or of the rows along an axis. A single mean of cells of any kind is a
cell of floats or a complex one. -/
def mean (axis : Option Nat) (t : Tensor Value) : Except Failure (Tensor Value) :=
  match axis, t.reduce (meanKind t.kind) (meanCells t.kind) axis with
  | none, .ok ⟨.mixed, shape, [c]⟩ => .ok ⟨c.kind, shape, [c]⟩
  | _, r => r

/-- The standard deviation of a sample: squares are divided by one less than their number. -/
def deviation (t : Tensor Value) : Float :=
  let xs := t.floats
  let mean := (0.0 + sumPairwise xs) / Float.ofNat xs.length
  let squares := xs.map fun x => (x - mean) * (x - mean)
  Float.sqrt ((0.0 + sumPairwise squares) / Float.ofNat (xs.length - 1))

/-- Whether a cell is not a number, where cells of its kind may be that. -/
def isNaNCell (k : CellKind) (c : Value) : Bool :=
  match k with
  | .half | .real => c.toFloat.isNaN
  | .complex => c.toComplex.isNaN
  | _ => false

/-- The greater or the lesser of two cells of one kind; what is not a number wins. -/
def extreme (greatest : Bool) (k : CellKind) (a b : Value) : Except Failure Value := do
  let op := if greatest then BinaryOp.ge else BinaryOp.le
  if k = .text then throw .unsuitableKind
  if isNaNCell k a then return a
  if isNaNCell k b then return b
  return if ← op.compareCells k a b then a else b

/-- The greatest or least cell. -/
def extremeCell (greatest : Bool) (t : Tensor Value) : Except Failure (Tensor Value) :=
  if t.kind = .text then .error .unsuitableKind
  else
    match t.cells with
    | [] => .error .unsuitableValue
    | c :: rest => (rest.foldlM (extreme greatest t.kind) c).map (single t.kind)

/-- The greater or lesser of two arrays, cell by cell. -/
def extremes (greatest : Bool) (a b : Tensor Value) : Except Failure (Tensor Value) :=
  let k := a.kind.join b.kind
  if k = .text then .error .unsuitableKind
  else zipWith k (extreme greatest k) (a.toKind k) (b.toKind k)

/-- The inner product of floats of 16 bits, computed in 32. -/
def dotHalves (xs ys : List Float) : Float :=
  Binary64.toHalf ((xs.zip ys).foldl (fun sum (x, y) => Binary64.toSingle (sum + x * y)) 0.0)

/-- The inner product of two arrays read as lists. -/
def dot (a b : Tensor Value) : Except Failure (Tensor Value) :=
  let k := a.kind.join b.kind
  if a.cells.length ≠ b.cells.length || k = .text then .error .unsuitableValue
  else if k = .half then .ok (single .half (Value.float (dotHalves a.floats b.floats)))
  else do
    let products ← (a.toKind k).ravel.arith .mul (b.toKind k).ravel
    match k, products.cells with
    | k, [c] => return single k c
    | .truth, cells => return single .truth (truth (cells.any Value.cellTruth))
    | k, cells => return single k ((← sumCells k cells).toKind k)

end Tensor

end PlateModel
