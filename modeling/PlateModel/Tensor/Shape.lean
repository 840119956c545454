/-!
# Shapes of arrays

The shape of an array is the list of its extents; its cells are listed in row-major order, the last
axis running fastest. Two arrays are combined cell by cell after both have been spread to a common
shape: axes are matched from the last one on, and an axis of extent one is repeated as often as
needed.

* `broadcast?`: the common shape of two shapes.
* `spread`: the cells of an array spread to a shape.
* `reshape?`: the shape that a written shape with one open extent stands for.
-/

namespace PlateModel.Shape

/-- How many cells an array of a shape has. -/
def size (shape : List Nat) : Nat := shape.foldr (· * ·) 1

/-- The common shape of two shapes whose axes are listed from the last one on. -/
def broadcastReversed? : List Nat → List Nat → Option (List Nat)
  | [], t => some t
  | s, [] => some s
  | m :: s, n :: t =>
    if m = n ∨ n = 1 then (broadcastReversed? s t).map (m :: ·)
    else if m = 1 then (broadcastReversed? s t).map (n :: ·)
    else none

/-- The common shape of two shapes, if they have one. -/
def broadcast? (s t : List Nat) : Option (List Nat) :=
  (broadcastReversed? s.reverse t.reverse).map List.reverse

/-- Cuts a list into so many blocks of one length. -/
def blocks {α : Type} (length : Nat) : Nat → List α → List (List α)
  | 0, _ => []
  | n + 1, xs => xs.take length :: blocks length n (xs.drop length)

/-- The cells of an array of shape `source` spread to shape `target`; the two have equally many
axes. -/
def spreadSame {α : Type} : List Nat → List Nat → List α → List α
  | m :: source, n :: target, cells =>
    let rows := (blocks (size source) m cells).map (spreadSame source target)
    if m = n then rows.flatten else (List.replicate n rows.flatten).flatten
  | _, _, cells => cells

/-- The cells of an array of shape `source` spread to shape `target`. -/
def spread {α : Type} (source target : List Nat) (cells : List α) : List α :=
  spreadSame (List.replicate (target.length - source.length) 1 ++ source) target cells

/-- The shape for so many cells that a written shape stands for. One extent may be `-1`: it is then
chosen to make the sizes agree. -/
def reshape? (count : Nat) (written : List Int) : Option (List Nat) :=
  let known := (written.filter (· ≠ -1)).map Int.toNat
  if written.any (· < -1) then none
  else
    match (written.filter (· = -1)).length with
    | 0 => if size known = count then some known else none
    | 1 =>
      if size known ≠ 0 ∧ count % size known = 0 then
        some (written.map fun n => if n = -1 then count / size known else n.toNat)
      else none
    | _ => none

end PlateModel.Shape
