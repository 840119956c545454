import PlateModel.Binary64
import PlateModel.Decimal.Reading
import PlateModel.Distribution.Family
import PlateModel.Number.Complex
import PlateModel.Tensor.Basic

/-!
# Values

What evaluating an expression gives: a number, a distribution, a cell that was taken from an array,
an array. Arguments may be more than that: lists of values, texts and missing values can be passed
to a compiled expression, although few operations accept them.

A cell knows the kind of its array and follows the arithmetic of arrays; a plain number does not.
The cells of an array are plain values other than lists.

* `Value.tensor?`: any value as an array.
* `Value.floats?`: a value as an array of floats, texts being read.
* `Value.isTrue`: whether a value counts as true.
-/

namespace PlateModel

/-- A value. -/
inductive Value
  | number (n : Number)
  | complex (z : Complex)
  | text (s : String)
  | missing
  /-- A table without entries; no operation accepts it. -/
  | emptyTable
  | list (items : List Value)
  /-- A distribution of a family with the parameters of its law. -/
  | distribution (family : Family) (parameters : List Value)
  /-- A cell of an array of a kind. -/
  | cell (kind : CellKind) (content : Value)
  | tensor (t : Tensor Value)
  deriving Inhabited

namespace Value

def int (i : Int) : Value := number (.int i)

def float (x : Float) : Value := number (.real x)

def truth (b : Bool) : Value := number (.truth b)

/-- An array as a value. Without axes it is its cell. -/
def ofTensor (t : Tensor Value) : Value :=
  match t.shape, t.cells with
  | [], [c] => if t.kind = .mixed then c else cell t.kind c
  | _, _ => tensor t

/-- The kind of the least array that holds a plain value. -/
def kind : Value → CellKind
  | number n => .ofNumber n
  | complex _ => .complex
  | text _ => .text
  | cell k _ => k
  | tensor t => t.kind
  | _ => .mixed

/-! ## Converting cells -/

/-- The text of a plain value as a cell of texts. -/
def cellText : Value → String
  | number n => n.text?.getD ""
  | complex z => z.text
  | text s => s
  | _ => ""

/-- The float nearest to the value of a cell. -/
def toFloat : Value → Float
  | number n => n.toFloat
  | complex z => z.re
  | _ => Binary64.nan

/-- The complex number of a cell. -/
def toComplex : Value → Complex
  | complex z => z
  | v => ⟨v.toFloat, 0.0⟩

/-- The word of a cell. A float loses its fraction; one that is too large for any word, or not a
number, becomes the least word. -/
def toWord (k : CellKind) : Value → Int
  | number (.real x) =>
    match Binary64.truncate? x with
    | some i => k.wrap (if CellKind.word.fits i then i else -(twoPow 63))
    | none => k.wrap (-(twoPow 63))
  | number n => k.wrap (n.integer?.getD 0)
  | _ => 0

/-- Whether the cell of an array of numbers or texts counts as true. -/
def cellTruth : Value → Bool
  | number n => n.isTrue
  | complex z => !z.isZero
  | text s => s ≠ ""
  | missing | emptyTable => false
  | list items => !items.isEmpty
  | _ => true

/-- A cell as one of another kind. -/
def toKind (k : CellKind) (v : Value) : Value :=
  match k with
  | .truth => truth v.cellTruth
  | .byte | .word | .unsigned => int (v.toWord k)
  | .half => float (Binary64.toHalf v.toFloat)
  | .real => float v.toFloat
  | .complex => complex v.toComplex
  | .text => text v.cellText
  | .mixed => v

end Value

namespace Tensor

/-- The cells of an array converted to a kind. -/
def toKind (k : CellKind) (t : Tensor Value) : Tensor Value :=
  if t.kind = k then t else t.map k (Value.toKind k)

/-- An array without axes. -/
def single (k : CellKind) (v : Value) : Tensor Value := ⟨k, [], [v]⟩

/-- An array of floats without axes. -/
def float (x : Float) : Tensor Value := single .real (.float x)

/-- An array of floats. -/
def ofFloats (shape : List Nat) (xs : List Float) : Tensor Value := ⟨.real, shape, xs.map .float⟩

/-- The cells of an array as floats. -/
def floats (t : Tensor Value) : List Float := t.cells.map Value.toFloat

/-- The cells in a written shape. -/
def reshape (written : List Int) (t : Tensor Value) : Except Failure (Tensor Value) :=
  match Shape.reshape? t.cells.length written with
  | some shape => .ok { t with shape }
  | none => .error .unsuitableValue

end Tensor

namespace Value

/-! ## Arrays from values -/

/-- Stacks arrays of one shape along a new first axis. -/
def stack : List (Tensor Value) → Except Failure (Tensor Value)
  | [] => .ok ⟨.real, [0], []⟩
  | first :: rest =>
    if rest.all (·.shape = first.shape) then
      .ok ⟨rest.foldl (fun k t => k.join t.kind) first.kind, (rest.length + 1) :: first.shape,
        first.cells ++ rest.flatMap (·.cells)⟩
    else .error .unsuitableValue

mutual

/-- The array that a value is made into, its cells as they were. -/
def flatten : Value → Except Failure (Tensor Value)
  | list items =>
    match flattenAll items with
    | .error e => .error e
    | .ok parts => stack parts
  | tensor t => .ok t
  | cell k v => .ok (.single k v)
  | number n => .ok (.single (.ofNumber n) (number n))
  | complex z => .ok (.single .complex (complex z))
  | text s => .ok (.single .text (text s))
  | missing => .ok (.single .mixed missing)
  | emptyTable => .ok (.single .mixed emptyTable)
  | distribution f ps => .ok (.single .mixed (distribution f ps))

/-- The arrays of some values. -/
def flattenAll : List Value → Except Failure (List (Tensor Value))
  | [] => .ok []
  | v :: rest =>
    match flatten v with
    | .error e => .error e
    | .ok part => (flattenAll rest).map (part :: ·)

end

/-- A value as an array. Lists are arrays if they are rectangular; their cells then have the least
common kind. -/
def tensor? (v : Value) : Except Failure (Tensor Value) :=
  match v with
  | tensor t => .ok t
  | v => v.flatten.map fun t => ⟨t.kind, t.shape, t.cells.map (toKind t.kind)⟩

/-- The array of some values, in a written shape. -/
def arrayOf (items : List Value) (shape : List Int) : Except Failure (Tensor Value) :=
  match (list items).tensor? with
  | .error e => .error e
  | .ok t => t.reshape shape

/-- The float that a plain value stands for; a text is read. -/
def float? : Value → Except Failure Float
  | number n =>
    match n.toFloat? with
    | some x => .ok x
    | none => .error .overflow
  | text s =>
    match Decimal.float? s.toList with
    | some x => .ok x
    | none => .error .unsuitableValue
  | missing => .ok Binary64.nan
  | _ => .error .unsuitableKind

/-- A cell of an array of a kind as a float. Complex cells lose their imaginary part. -/
def cellFloat? (k : CellKind) (v : Value) : Except Failure Float :=
  if k = .complex then .ok v.toFloat else v.float?

mutual

/-- A value as an array of floats. -/
def floats? : Value → Except Failure (Tensor Value)
  | list items =>
    match floatsAll? items with
    | .error e => .error e
    | .ok parts => stack parts
  | tensor t => (t.cells.mapM (cellFloat? t.kind)).map fun xs => .ofFloats t.shape xs
  | cell k v => (cellFloat? k v).map .float
  | v => v.float?.map .float

/-- Some values as arrays of floats. -/
def floatsAll? : List Value → Except Failure (List (Tensor Value))
  | [] => .ok []
  | v :: rest =>
    match floats? v with
    | .error e => .error e
    | .ok part => (floatsAll? rest).map (part :: ·)

end

/-! ## Truth -/

/-- Whether a value counts as true. An array does not, unless it has just one cell. -/
def isTrue : Value → Except Failure Bool
  | tensor t =>
    match t.cell? with
    | some c => .ok c.cellTruth
    | none => .error .unsuitableValue
  | cell _ c => .ok c.cellTruth
  | v => .ok v.cellTruth

/-- Whether a value is an array, be it without axes. -/
def isTensor : Value → Bool
  | tensor _ => true
  | _ => false

/-- A value that is a single cell, as a plain value; other values stay what they are. -/
def unwrap : Value → Value
  | cell _ c => c
  | tensor t =>
    match t.shape, t.cells with
    | [], [c] => c
    | _, _ => tensor t
  | v => v

end Value

end PlateModel
