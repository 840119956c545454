import PlateModel.Data.Datum
import PlateModel.Diagnostic.Fault
import PlateModel.Tensor.Shape

/-!
# Selecting cells of an array

An index is a position, a range of positions or a whole axis. Positions start at one. The end of
a range is exclusive, and an end of zero or less counts from the end of the axis.

* `Index.check`: the first rule that an index breaks.
* `Index.extent`: how far an axis must reach for an index.
* `select`: the cells that some indices select.
-/

namespace PlateModel

/-- What stands at one index position of a reference. -/
inductive Index
  | position (i : Int)
  /-- From `start` up to but not including `stop`. -/
  | range (start stop step : Int)
  /-- Every index along the axis. -/
  | full
  /-- Bounds that are neither a range nor a whole axis; no reference accepts them. -/
  | bounds (start stop step : Datum)
  /-- No index at all. -/
  | other (d : Datum)
  deriving Inhabited

namespace Index

/-- The integers from `lower` up to and including `upper`. -/
def between (lower upper : Int) : Index := range lower (upper + 1) 1

private def shownBounds? (a b c : Datum) : Option String :=
  (Datum.shownItems? [a, b, c]).map fun ts => "slice(" ++ ", ".intercalate ts ++ ")"

/-- A problem that shows a part of an index. A part that cannot be shown is a failure of its own. -/
private def showing (shown : Option String) (p : String → Problem) : Fault :=
  match shown with
  | some s => .model (p s) none
  | none => .evaluation .unsuitableValue

/-- The first rule that an index of an array breaks. -/
def check (array : String) : Index → Except Fault Unit
  | position i =>
    if i < 1 then .error (showing (Decimal.boundedInt? i) (.outOfRange array)) else .ok ()
  | range start _ step =>
    if step ≠ 1 then .error (.model (.steppedIndex array) none)
    else if start < 1 then .error (showing (Decimal.boundedInt? start) (.outOfRange array))
    else .ok ()
  | full => .ok ()
  | bounds a b c => .error (showing (shownBounds? a b c) (.unsupportedSlice array))
  | other d => .error (showing d.shown? (.nonIntegerIndex array))

/-- The extent that an axis of extent `current` must have for an index. -/
def extent (current : Nat) : Index → Nat
  | position i => max current i.toNat
  | range _ stop _ => max current (stop - 1).toNat
  | full => max current 1
  | bounds .. | other _ => current

/-- Whether the axis of an index is left out of the selection. -/
def isPosition : Index → Bool
  | position _ => true
  | _ => false

/-- The offset of an end along an axis of extent `n`. One below zero counts from the end of
the axis, and what lies beyond the axis is moved to its nearest end. -/
def offset (n : Nat) (i : Int) : Nat :=
  if i < 0 then (i + n).toNat else min i.toNat n

/-- The offsets that an index selects along an axis of extent `n`, in ascending order. -/
def offsets (n : Nat) : Index → List Nat
  | position i => [(i - 1).toNat]
  | range start stop _ =>
    let first := offset n (start - 1)
    (List.range (offset n (stop - 1) - first)).map (first + ·)
  | full => List.range n
  | bounds .. | other _ => []

end Index

/-- The cells of an array of a shape that some indices select, in row-major order. -/
def select {α : Type} : List Index → List Nat → List α → List α
  | i :: is, n :: shape, cells =>
    let rows := Shape.blocks (Shape.size shape) n cells
    (i.offsets n).flatMap fun k => ((rows[k]?).map (select is shape)).getD []
  | _, _, cells => cells

/-- The shape of a selection: one axis for each index that is no position. -/
def selectedShape (is : List Index) (shape : List Nat) : List Nat :=
  (is.zip shape).filterMap fun (i, n) => if i.isPosition then none else some (i.offsets n).length

end PlateModel
