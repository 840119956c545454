import PlateModel.Number.Basic
import PlateModel.Power
import PlateModel.Tensor.Shape

/-!
# Arrays

An array has a kind, a shape and its cells in row-major order. An array without axes has a single
cell. All cells of an array are of one kind: truth values, signed words of 8 or 64 bits, unsigned
words of 64 bits, floats of 16 or 64 bits, complex numbers, texts, or anything at all. The
arithmetic of words wraps; it never becomes inexact.

* `CellKind.join`: the least kind that holds two kinds.
* `CellKind.wrap`: an integer as a word.
-/

namespace PlateModel

/-! ## Kinds of cells -/

/-- What the cells of an array are. -/
inductive CellKind
  | truth
  | byte
  | word
  | unsigned
  | half
  | real
  | complex
  | text
  /-- Cells that keep their own kinds. -/
  | mixed
  deriving Repr, DecidableEq, Inhabited

namespace CellKind

/-- The least and the greatest word of a kind of words. -/
def range? : CellKind → Option (Int × Int)
  | byte => some (-128, 127)
  | word => some (-(twoPow 63), twoPow 63 - 1)
  | unsigned => some (0, twoPow 64 - 1)
  | _ => none

def isWords (k : CellKind) : Bool := k.range?.isSome

/-- Whether the cells of a kind are floats. -/
def isFloats : CellKind → Bool
  | half | real => true
  | _ => false

/-- Whether an integer is a word of a kind. -/
def fits (k : CellKind) (i : Int) : Bool :=
  match k.range? with
  | some (low, high) => low ≤ i && i ≤ high
  | none => false

/-- The word of a kind that an integer wraps to. -/
def wrap (k : CellKind) (i : Int) : Int :=
  match k with
  | byte => Int.bmod i 256
  | unsigned => i % twoPow 64
  | _ => Int.bmod i (twoPow 64)

/-- The least kind that holds a number. -/
def ofNumber : Number → CellKind
  | .truth _ => truth
  | .real _ => real
  | .int i => if word.fits i then word else if unsigned.fits i then unsigned else mixed

/-- The least kind that holds two kinds. Signed and unsigned words meet in floats, and so do floats
of 16 bits and words of 64. -/
def join : CellKind → CellKind → CellKind
  | mixed, _ | _, mixed => mixed
  | text, _ | _, text => text
  | complex, _ | _, complex => complex
  | real, _ | _, real => real
  | half, word | half, unsigned | word, half | unsigned, half => real
  | half, _ | _, half => half
  | unsigned, word | unsigned, byte | word, unsigned | byte, unsigned => real
  | unsigned, _ | _, unsigned => unsigned
  | word, _ | _, word => word
  | byte, _ | _, byte => byte
  | truth, truth => truth

/-- Whether cells of a kind may be written into an array of another one: never from floats to words,
or from anything into truth values. -/
def mayBecome (k target : CellKind) : Bool :=
  match target, k with
  | mixed, _ => true
  | truth, k => k = truth
  | byte, k | word, k => k = truth || k = byte || k = word || k = unsigned
  | unsigned, k => k = truth || k = unsigned
  | half, k | real, k => k = truth || k.isWords || k.isFloats
  | complex, k => k = truth || k.isWords || k.isFloats || k = complex
  | text, k => k = text

end CellKind

/-! ## Arrays -/

/-- An array; its cells are of its kind and as many as its shape has. -/
structure Tensor (α : Type) where
  kind : CellKind
  shape : List Nat
  cells : List α
  deriving Inhabited

namespace Tensor

variable {α β : Type}

/-- An array of another kind from the cells of an array. -/
def map (k : CellKind) (f : α → β) (t : Tensor α) : Tensor β := ⟨k, t.shape, t.cells.map f⟩

/-- An array of another kind from the cells of an array, if there is one. -/
def mapM {ε : Type} (k : CellKind) (f : α → Except ε β) (t : Tensor α) : Except ε (Tensor β) :=
  (t.cells.mapM f).map fun cells => ⟨k, t.shape, cells⟩

/-- The same cells along one axis. -/
def ravel (t : Tensor α) : Tensor α := { t with shape := [t.cells.length] }

/-- The cells spread to a shape. -/
def spread (shape : List Nat) (t : Tensor α) : List α := Shape.spread t.shape shape t.cells

/-- The only cell, if there is just one. -/
def cell? (t : Tensor α) : Option α :=
  match t.cells with
  | [c] => some c
  | _ => none

end Tensor

end PlateModel
