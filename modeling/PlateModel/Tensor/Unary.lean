import PlateModel.Tensor.Elementwise

/-!
# Functions of cells

Functions of floats applied to every cell of an array. The elementary ones compute with as many bits
as the cells have: truth values and words of 8 bits become floats of 16 bits, other words floats of
64. The special ones always compute with 64 bits. Cells of any kind at all and texts are refused,
except where a function has a meaning for plain values.

* `Tensor.elementary`, `Tensor.special`: functions of floats.
* `Tensor.absolute`, `Tensor.truncated`, `Tensor.rounded`: functions that leave integers alone.
* `Tensor.assign`: an array written into another one.
-/

namespace PlateModel.Tensor

open Value

/-- An elementary function of floats and of complex numbers. -/
def elementary (f : Float → Float) (g : Complex → Complex) (t : Tensor Value) :
    Except Failure (Tensor Value) :=
  match t.kind with
  | .truth | .byte | .half =>
    .ok (t.map .half fun c => Value.float (Binary64.toHalf (Binary64.toSingle (f c.toFloat))))
  | .word | .unsigned | .real => .ok (t.map .real fun c => Value.float (f c.toFloat))
  | .complex => .ok (t.map .complex fun c => complex (g c.toComplex))
  | .text | .mixed => .error .unsuitableKind

/-- An array as one of floats of 64 bits. -/
def toReal (t : Tensor Value) : Except Failure (Tensor Value) :=
  match t.kind with
  | .complex | .text | .mixed => .error .unsuitableKind
  | _ => .ok (t.toKind .real)

/-- A special function of floats. -/
def special (f : Float → Float) (t : Tensor Value) : Except Failure (Tensor Value) :=
  t.toReal.map fun t => t.map .real fun c => Value.float (f c.toFloat)

/-- A special function of floats and of complex numbers. -/
def specialOrComplex (f : Float → Float) (g : Complex → Complex) (t : Tensor Value) :
    Except Failure (Tensor Value) :=
  if t.kind = .complex then .ok (t.map .complex fun c => complex (g c.toComplex))
  else t.special f

/-- The absolute value of a plain value. -/
def absolutePlain : Value → Except Failure Value
  | number (.real x) => .ok (Value.float x.abs)
  | number n => .ok (int ((n.integer?.getD 0).natAbs))
  | complex z =>
    let r := z.magnitude
    if r.isInf && !z.re.isInf && !z.im.isInf then .error .overflow else .ok (Value.float r)
  | _ => .error .unsuitableKind

/-- The absolute values of the cells. -/
def absolute (t : Tensor Value) : Except Failure (Tensor Value) :=
  match t.kind with
  | .text => .error .unsuitableKind
  | .mixed => t.mapM .mixed absolutePlain
  | .complex => .ok (t.map .real fun c => Value.float c.toComplex.magnitude)
  | .half | .real => .ok (t.map t.kind fun c => Value.float c.toFloat.abs)
  | .truth => .ok t
  | k => .ok (t.map k fun c => int (k.wrap (c.toWord k).natAbs))

/-- A plain value without its fraction. -/
def truncatePlain : Value → Except Failure Value
  | number (.real x) =>
    match Binary64.truncate? x with
    | some i => .ok (int i)
    | none => .error (if x.isNaN then .unsuitableValue else .overflow)
  | number n => .ok (int (n.integer?.getD 0))
  | _ => .error .unsuitableKind

/-- The cells without their fractions. -/
def truncated (t : Tensor Value) : Except Failure (Tensor Value) :=
  match t.kind with
  | .complex | .text => .error .unsuitableKind
  | .mixed => t.mapM .mixed truncatePlain
  | .half | .real => .ok (t.map t.kind fun c => Value.float (Binary64.truncate c.toFloat))
  | _ => .ok t

/-- The cells rounded down; words stay as they are. -/
def floored (t : Tensor Value) : Except Failure (Tensor Value) :=
  match t.kind with
  | .complex | .text | .mixed => .error .unsuitableKind
  | .half | .real => .ok (t.map t.kind fun c => Value.float c.toFloat.floor)
  | _ => .ok t

/-- A float rounded to so many decimal places, a half to the even neighbour, in the floats of a
kind. -/
def roundPlaces (k : CellKind) (places : Int) (x : Float) : Float :=
  let unit := k.roundFloat (Float.pow 10.0 (Float.ofNat places.natAbs))
  let nearest (y : Float) : Float := Binary64.nearestInteger (k.roundFloat y)
  if places = 0 then Binary64.nearestInteger x
  else k.roundFloat (if 0 < places then nearest (x * unit) / unit else nearest (x / unit) * unit)

/-- The cells rounded to decimal places. Words change only if places before the point are given up,
and truth values have no decimal places. -/
def rounded (places : Int) (t : Tensor Value) : Except Failure (Tensor Value) :=
  match t.kind with
  | .text | .mixed => .error .unsuitableKind
  | .truth =>
    if places = 0 then .ok (t.map .half fun c => Value.float c.toFloat) else .error .unsuitableKind
  | .half | .real => .ok (t.map t.kind fun c => Value.float (roundPlaces t.kind places c.toFloat))
  | .complex =>
    let part := roundPlaces .real places
    .ok (t.map .complex fun c => complex ⟨part c.toComplex.re, part c.toComplex.im⟩)
  | k =>
    if 0 ≤ places then .ok t
    else .ok (t.map k fun c => int ((Value.float (roundPlaces .real places c.toFloat)).toWord k))

/-- An array written into another one, which keeps its kind and its shape. -/
def assign (target t : Tensor Value) : Except Failure (Tensor Value) :=
  if !t.kind.mayBecome target.kind then .error .unsuitableKind
  else if Shape.broadcast? t.shape target.shape ≠ some target.shape then .error .unsuitableValue
  else .ok ⟨target.kind, target.shape, (t.toKind target.kind).spread target.shape⟩

end PlateModel.Tensor
