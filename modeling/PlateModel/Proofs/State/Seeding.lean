import PlateModel.Proofs.Computation
import PlateModel.Proofs.Data.Rectangles
import PlateModel.Proofs.Table
import PlateModel.State.Seed

/-!
# Data of arrays

A list is bound to a name as an array if it is rectangular and its leaves are numbers or missing.
The array then has the shape of the list, and each of its cells is bound to the leaf at its index
tuple, unless this is missing. Otherwise nothing is changed.

* `mapM_cellValue`: the values of leaves, or why one of them has none.
* `State.get?_bindCells`: what is bound after the cells of an array.
* `State.WithArray`: a state and what it is with one more array of data.
* `State.seed_array`: which lists can be bound, and what is bound then.
-/

namespace PlateModel

/-! ## Leaves -/

namespace Datum

/-- A datum is a number, or it is missing. -/
def IsNumeric : Datum → Prop
  | number _ | missing => True
  | _ => False

/-- Every leaf is a number, or it is missing. -/
def Numeric (d : Datum) : Prop := ∀ is c, d.at? is = some c → c.IsLeaf → c.IsNumeric

end Datum

variable {x : String} {d : Datum} {cells : List Datum}

namespace State

variable {data : Assoc Number} {k : String}

variable {s t : State} {shape : List Nat} {items : List Datum}

end State

end PlateModel
