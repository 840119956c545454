import PlateModel.Assoc
import PlateModel.Decimal.Basic
import PlateModel.Power
import PlateModel.Registry.Selection

/-!
# The array registry

A model defines variables and cells of arrays. Both are known by name: the name of a cell is that of
its array followed by its indices in brackets.

The registry knows the arrays of a model: their shapes and their cells. The first reference to an
array fixes how many axes it has; later references must have as many indices, and make the array
grow when they reach past an extent. Each growth starts a new generation of the array, and handles
of earlier generations are refused.

* `Registry.register`: makes room for an array of data.
* `Registry.reference`: the cells that a reference stands for, and the registry after it.
* `Registry.grow`, `Registry.handle`, `Registry.get`: growth and generations.
-/

namespace PlateModel

/-! ## Cells and symbols -/

/-- A cell of an array; indices start at one. -/
structure Cell where
  base : String
  indices : List Int
  deriving Repr, DecidableEq, Inhabited

/-- The name of a cell, such as `mu[1,2]`. -/
def Cell.name (c : Cell) : String :=
  c.base ++ "[" ++ ",".intercalate (c.indices.map Decimal.ofInt) ++ "]"

/-- What a definition can define. -/
inductive Symbol
  | scalar (x : String)
  | cell (c : Cell)
  deriving Repr, DecidableEq, Inhabited

def Symbol.name : Symbol → String
  | scalar x => x
  | cell c => c.name

/-! ## Arrays -/

/-- An array of cells, in row-major order. -/
structure SymbolArray where
  shape : List Nat
  cells : List Cell
  generation : Nat
  deriving Inhabited

/-- The index tuples of a shape in row-major order. -/
def positions : List Nat → List (List Int)
  | [] => [[]]
  | n :: shape =>
    let inner := positions shape
    (List.range n).flatMap fun k => inner.map (Int.ofNat (k + 1) :: ·)

/-- The cells of a new array. -/
def cellsOf (base : String) (shape : List Nat) : List Cell := (positions shape).map (Cell.mk base)

/-- No array has this many cells. -/
def cellLimit : Nat := twoPow 60

/-- Whether an array can have a shape. -/
def isAllocatable (shape : List Nat) : Bool :=
  shape.length ≤ Datum.maxRank && Shape.size (shape.map (max 1)) < cellLimit

/-- The cells of an array of shape `outer` after the first cells along every axis have been replaced
by those of an array of shape `inner`. -/
def overlay {α : Type} : List Nat → List Nat → List α → List α → List α
  | m :: inner, n :: outer, old, fresh =>
    let rows := Shape.blocks (Shape.size outer) n fresh
    let kept := Shape.blocks (Shape.size inner) m old
    (List.zipWith (overlay inner outer) kept rows).flatten ++ (rows.drop m).flatten
  | _, _, old, _ => old

/-- What a reference stands for: one cell, or an array of cells. -/
inductive Reference
  | one (c : Cell)
  | block (shape : List Nat) (cells : List Cell)
  deriving Inhabited

/-- One generation of an array. -/
structure Handle where
  array : String
  generation : Int
  deriving Repr, DecidableEq

/-- The arrays of a model by name. -/
structure Registry where
  arrays : Assoc SymbolArray
  deriving Inhabited

namespace Registry

def empty : Registry := ⟨.empty⟩

def get? (r : Registry) (name : String) : Option SymbolArray := r.arrays.get? name

def contains (r : Registry) (name : String) : Bool := r.arrays.contains name

def size (r : Registry) : Nat := r.arrays.size

/-- An array that must be known. -/
def find (r : Registry) (name : String) : Except Fault SymbolArray :=
  match r.get? name with
  | some a => .ok a
  | none => .error (.evaluation .unboundName)

/-- The registry with a new array. -/
def allocate (r : Registry) (name : String) (shape : List Nat) : Except Fault Registry :=
  if isAllocatable shape then .ok ⟨r.arrays.put name ⟨shape, cellsOf name shape, 0⟩⟩
  else .error (.evaluation .unsuitableValue)

/-- Makes room for an array of data. -/
def register (r : Registry) (name : String) (shape : List Int) : Except Fault Registry :=
  if r.contains name then .error (.model (.registered name) none)
  else if shape.any (· < 0) then .error (.evaluation .unsuitableValue)
  else r.allocate name (shape.map Int.toNat)

/-- A larger array that keeps the cells of an array in their places. Along further axes the cells
are repeated, if the shapes allow it. -/
def enlarge (name : String) (a : SymbolArray) (shape : List Nat) : Except Fault SymbolArray :=
  if !isAllocatable shape then .error (.evaluation .unsuitableValue)
  else if shape.length < a.shape.length then .error (.evaluation .outOfBounds)
  else
    let corner := a.shape ++ shape.drop a.shape.length
    if Shape.broadcast? a.shape corner = some corner then
      let kept := Shape.spread a.shape corner a.cells
      .ok ⟨shape, overlay corner shape kept (cellsOf name shape), a.generation + 1⟩
    else .error (.evaluation .unsuitableValue)

/-- Makes an array larger. It never shrinks; a new generation starts even if the shape stays the
same. -/
def grow (r : Registry) (name : String) (shape : List Int) : Except Fault Registry := do
  let a ← r.find name
  if (shape.zip a.shape).any fun (new, old) => new < old then
    throw (.model (.cannotShrink name (a.shape.map Int.ofNat) shape) none)
  if shape.any (· < 0) then throw (.evaluation .unsuitableValue)
  let a ← enlarge name a (shape.map Int.toNat)
  return ⟨r.arrays.put name a⟩

/-- Registry with an array that is large enough for some indices. -/
def reach (r : Registry) (name : String) (is : List Index) : Except Fault Registry :=
  match r.get? name with
  | none => r.allocate name (is.map (·.extent 0))
  | some a =>
    if a.shape.length ≠ is.length then
      .error (.model (.rankMismatch name a.shape.length is.length) none)
    else
      let needed := List.zipWith (fun i n => i.extent n) is a.shape
      if needed = a.shape then .ok r
      else (enlarge name a needed).map fun a => ⟨r.arrays.put name a⟩

/-- What a reference to an array stands for. -/
def reference (r : Registry) (name : String) (is : List Index) :
    Except Fault (Reference × Registry) := do
  is.forM (Index.check name)
  let r ← r.reach name is
  let a ← r.find name
  let cells := select is a.shape a.cells
  match is.all (·.isPosition), cells with
  | true, [c] => return (.one c, r)
  | _, _ => return (.block (selectedShape is a.shape) cells, r)

/-- A handle of the current generation of an array. -/
def handle (r : Registry) (name : String) : Except Fault Handle :=
  (r.find name).map fun a => ⟨name, a.generation⟩

/-- The array of a handle, unless it has grown since. -/
def get (r : Registry) (h : Handle) : Except Fault SymbolArray :=
  match r.get? h.array with
  | none => .error (.model (.noArray h.array) none)
  | some a =>
    if h.generation = a.generation then .ok a
    else .error (.model (.staleHandle h.array h.generation a.generation) none)

end Registry

end PlateModel
