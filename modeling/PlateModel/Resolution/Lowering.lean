import PlateModel.Registry.Basic
import PlateModel.Resolution.Definitions

/-!
# Lowering of array references

Lowering replaces every array reference in an expression by the name of its cell, or by the array of
the names of its cells. For this the indices are evaluated partially, and the registry is asked for
the cells, so that arrays come into being and grow as they are referred to; they do so even if
lowering fails later on.

* `Definitions.lower`: an expression without array references.
* `Definitions.indices`: the indices at some index positions.
* `Definitions.symbolic`, `Definitions.resolve`: what a reference stands for, and what an expression
  comes to.
-/

namespace PlateModel

/-- A computation that may fail and refers to arrays. -/
abbrev Referring := ExceptT Fault (StateM Registry)

/-- The cells of an array that some indices select. -/
def referTo (array : String) (is : List Index) : Referring Reference := fun r =>
  match r.reference array is with
  | .ok (cells, r) => (.ok cells, r)
  | .error e => (.error e, r)

/-- A reference as an expression. -/
def Reference.toExpr (l : Option Location) : Reference → Expr
  | one c => .name c.name
  | block shape cells => .array (cells.map fun c => .name c.name) (shape.map Int.ofNat) l

/-- The name of the array that an expression in front of indices stands for. -/
def arrayName (base : Expr) (is : List Expr) (l : Option Location) : Except Fault String :=
  match base with
  | .name x => .ok x
  | base => .error (.model (.nestedReference (.index base is l)) l)

namespace Definitions

/-- The integer that a lowered expression comes to at an index position. -/
def integer (d : Definitions) (written lowered : Expr) : Except Fault Int := do
  let outcome ← orFault (d.outcome lowered)
  match outcome.number? with
  | some (.int i) => return i
  | some (.real x) =>
    match Binary64.toInt? x with
    | some i => return i
    | none => throw (.model (.fractionalIndex written (Decimal.ofFloat x)) written.location)
  | some (.truth _) | none => throw (.model (.unresolvedIndex written) written.location)

mutual

/-- An expression with its array references replaced by cells. -/
def lower (d : Definitions) : Expr → Referring Expr
  | .literal v m => pure (.literal v m)
  | .name x => pure (.name x)
  | .index base is l => do
    let array ← arrayName base is l
    let selected ← referTo array (← indices d is)
    return selected.toExpr l
  | .call f args l => return .call f (← lowerAll d args) l
  | .range a b l => do
    let a ← lower d a
    return .range a (← lower d b) l
  | .stepped a b s l => do
    let s ← lower d s
    let a ← lower d a
    return .stepped a (← lower d b) s l
  | .colon l => pure (.colon l)
  | .array xs shape l => return .array (← lowerAll d xs) shape l

/-- Lowers every expression of a list. -/
def lowerAll (d : Definitions) : List Expr → Referring (List Expr)
  | [] => pure []
  | x :: xs => do
    let x ← lower d x
    return x :: (← lowerAll d xs)

/-- The indices that stand at some index positions. -/
def indices (d : Definitions) : List Expr → Referring (List Index)
  | [] => pure []
  | .colon _ :: rest => return .full :: (← indices d rest)
  | .stepped a b s l :: _ => throw (.model (.steppedRange (.stepped a b s l)) l)
  | .range a b _ :: rest => do
    let i ← d.integer a (← lower d a)
    let j ← d.integer b (← lower d b)
    return .between i j :: (← indices d rest)
  | e :: rest => do
    let i ← d.integer e (← lower d e)
    return .position i :: (← indices d rest)

end

/-- What a name or an array reference stands for. -/
def symbolic (d : Definitions) : Expr → Referring (Symbol ⊕ Reference)
  | .name x => pure (.inl (.scalar x))
  | .index base is l => do
    let array ← arrayName base is l
    return .inr (← referTo array (← indices d is))
  | e => throw (.model (.noSymbol e.source) e.location)

/-- What an expression comes to. -/
def resolve (d : Definitions) (e : Expr) : Referring Outcome := do
  let e ← d.lower e
  orFault (d.outcome e)

end Definitions

end PlateModel
