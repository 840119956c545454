import PlateModel.Special.Elementary
import PlateModel.Tensor.Unary
import PlateModel.Value.Operators

/-!
# Formulas

A formula is a value that is being computed, or the failure that ended the computation. It is
written with the operators of arithmetic, which work as the operators on values do, and with
functions of cells. Its literals are plain numbers, so they yield to the arrays beside them.

* `Formula.real`: a float that does not yield.
* `Formula.exp`, `Formula.log`, ...: elementary functions.
* `Formula.special₁`, ...: special functions of one or more arguments.
-/

namespace PlateModel

/-- A value being computed. -/
structure Formula where
  value : Except Failure Value

namespace Formula

open Value

/-- A formula that is a value. -/
def of (v : Value) : Formula := ⟨.ok v⟩

/-- A formula that is an array. -/
def ofTensor (t : Tensor Value) : Formula := of (.tensor t)

/-- A formula that has no value. -/
def failing (e : Failure) : Formula := ⟨.error e⟩

/-- A float that is a cell. -/
def real (x : Float) : Formula := of (.cell .real (.float x))

instance {n : Nat} : OfNat Formula n := ⟨of (.int n)⟩

instance : OfScientific Formula := ⟨fun m s e => of (.float (OfScientific.ofScientific m s e))⟩

/-- A binary operator on two formulas. -/
def binary (op : BinaryOp) (a b : Formula) : Formula := ⟨do
  op.apply (← a.value) (← b.value)⟩

instance : Add Formula := ⟨binary .add⟩

instance : Sub Formula := ⟨binary .sub⟩

instance : Mul Formula := ⟨binary .mul⟩

instance : Div Formula := ⟨binary .div⟩

instance : Neg Formula := ⟨fun a => ⟨do UnaryOp.neg.apply (← a.value)⟩⟩

def pow : Formula → Formula → Formula := binary .pow

/-- The array that a formula is made into. -/
def tensor? (a : Formula) : Except Failure (Tensor Value) := do (← a.value).tensor?

/-- A function of arrays. -/
def map (f : Tensor Value → Except Failure (Tensor Value)) (a : Formula) : Formula := ⟨do
  return Value.ofTensor (← f (← a.tensor?))⟩

def exp : Formula → Formula := map (·.elementary Float.exp Complex.exp)

def log : Formula → Formula := map (·.elementary Float.log Complex.log)

def sqrt : Formula → Formula := map (·.elementary Float.sqrt Complex.sqrt)

def log1p : Formula → Formula := map (·.elementary Special.log1p Complex.log1p)

/-- The square; that of a truth value is a word. -/
def square : Formula → Formula := map fun t =>
  let t := if t.kind = .truth then t.toKind .byte else t
  t.arith .mul t

def expm1 : Formula → Formula :=
  map (·.elementary Special.expm1 fun z => z.exp.sub Complex.one)

def abs : Formula → Formula := map Tensor.absolute

def floor : Formula → Formula := map Tensor.floored

/-- The nearest integer. -/
def round : Formula → Formula := map (Tensor.rounded 0)

/-- A special function of floats. -/
def special₁ (f : Float → Float) : Formula → Formula := map (·.special f)

/-- A special function of several floats at the cells of arrays. -/
def special (f : List Float → Except Failure Float) (args : List Formula) : Formula := ⟨do
  let ts ← args.mapM fun a => do (← a.tensor?).toReal
  let shape ← ts.foldlM (fun shape t =>
    match Shape.broadcast? shape t.shape with
    | some shape => .ok shape
    | none => .error .unsuitableValue) []
  let columns := ts.map fun t => (t.spread shape).map Value.toFloat
  let cells ← (List.range (Shape.size shape)).mapM fun i => f (columns.filterMap (·[i]?))
  return Value.ofTensor (.ofFloats shape cells)⟩

/-- A special function of two floats. -/
def special₂ (f : Float → Float → Float) (a b : Formula) : Formula :=
  special (fun
    | [x, y] => .ok (f x y)
    | _ => .error .unsuitableKind) [a, b]

/-- A special function of three floats. -/
def special₃ (f : Float → Float → Float → Float) (a b c : Formula) : Formula :=
  special (fun
    | [x, y, z] => .ok (f x y z)
    | _ => .error .unsuitableKind) [a, b, c]

/-- One formula where the cells of an array have a property, another one elsewhere. -/
def choose (p : Float → Bool) (selector yes no : Formula) : Formula := ⟨do
  let t ← selector.tensor?
  if t.cells.all fun c => p c.toFloat then yes.value
  else if !t.cells.any fun c => p c.toFloat then no.value
  else
    let marks := ofTensor (t.map .real fun c => .float (if p c.toFloat then 1.0 else 0.0))
    (special₃ (fun m x y => if m == 1.0 then x else y) marks yes no).value⟩

end Formula

end PlateModel
