import PlateModel.State.Basic

/-!
# Seeding data

Data are bound one after the other: a number to a variable, the numbers of a rectangular list to the
cells of an array of that shape. Missing values bind nothing. What was bound before a binding that
fails stays bound.

* `State.bind`: the state with one more binding.
* `State.seed`: the state after all bindings.
-/

namespace PlateModel

/-- The number in a cell of data; none if it is missing. -/
def cellValue (name : String) : Datum → Except Fault (Option Number)
  | .list _ => .error (.model (.dataRagged name) none)
  | .number n => .ok (if n.isNaN then none else some n)
  | .missing => .ok none
  | d =>
    match d.shown? with
    | some shown => .error (.model (.dataValue name shown) none)
    | none => .error (.evaluation .unsuitableValue)

namespace State

/-- Binds the cells that have a value. -/
def bindCells (data : Assoc Number) : List (Cell × Option Number) → Assoc Number
  | [] => data
  | (c, some v) :: rest => bindCells (data.put c.name v) rest
  | (_, none) :: rest => bindCells data rest

/-- Binds an array of data. -/
def bindArray (s : State) (name : String) (d : Datum) : Except Fault State := do
  let (shape, cells) := d.rectangle
  let values ← cells.mapM (cellValue name)
  let registry ← s.registry.register name (shape.map Int.ofNat)
  return { s with registry, data := bindCells s.data ((cellsOf name shape).zip values) }

/-- Binds a name. -/
def bind (s : State) (name : String) (d : Datum) : Except Fault State :=
  match d with
  | .list _ => s.bindArray name d
  | .number n => .ok (if n.isNaN then s else { s with data := s.data.put name n })
  | .missing => .ok s
  | d => .error (.model (.dataKind name d.kindName) none)

/-- Binds names one after the other, up to the first binding that fails. -/
def seed : List (String × Datum) → Compiling Unit
  | [] => pure ()
  | (name, d) :: rest => do
    let s ← get
    set (← s.bind name d)
    seed rest

end State

end PlateModel
