import PlateModel.Distribution.Moments
import PlateModel.Special.Normal
import PlateModel.Special.Incomplete
import PlateModel.Tensor.Reduction

/-!
# The functions of the model language

The closed table of functions that expressions may call. A function of floats works on arrays cell
by cell; where it is not defined its value is not a number. Its result is a cell or an array, not a
constant, except for `step` and `equals`. A function of cells takes an array as a further argument,
into which its result is then written.

* `Function.ofName?`: the functions by name.
* `Function.apply`: the value of a call.
-/

namespace PlateModel

/-- A function of the table. -/
inductive Function
  | abs | sqrt | exp | log | pow | sin | cos | tan
  | logit | logistic | cloglog | cexpexp | phi | probit
  | step | equals | max | min | sum | mean | sd | inprod | round | trunc
  | logfact | loggam
  /-- The functions whose first argument is a distribution. -/
  | ofLaw (f : LawFunction)
  deriving Repr, DecidableEq

namespace Function

open Value

/-- The names of the functions. -/
def table : List (String × Function) := [
  ("abs", abs), ("sqrt", sqrt), ("exp", exp), ("log", log), ("pow", pow), ("sin", sin),
  ("cos", cos), ("tan", tan), ("logit", logit), ("logistic", logistic), ("ilogit", logistic),
  ("cloglog", cloglog), ("cexpexp", cexpexp), ("icloglog", cexpexp), ("phi", phi),
  ("probit", probit), ("step", step), ("equals", equals), ("max", max), ("min", min),
  ("sum", sum), ("mean", mean), ("sd", sd), ("inprod", inprod), ("round", round),
  ("trunc", trunc), ("logfact", logfact), ("loggam", loggam), ("cdf", ofLaw .cdf),
  ("pdf", ofLaw .density), ("logpdf", ofLaw .logDensity)]

def ofName? (f : String) : Option Function := table.lookup f

/-- Whether the first argument of a function is a distribution. -/
def takesDistribution : Function → Bool
  | ofLaw _ => true
  | _ => false

/-! ## Functions of cells -/

/-- The functions of the cells of one array. -/
def onCells? : Function → Option (Tensor Value → Except Failure (Tensor Value))
  | abs => some Tensor.absolute
  | sqrt => some (Tensor.elementary Float.sqrt Complex.sqrt)
  | exp => some (Tensor.elementary Float.exp Complex.exp)
  | log => some (Tensor.elementary Float.log Complex.log)
  | sin => some (Tensor.elementary Float.sin Complex.sin)
  | cos => some (Tensor.elementary Float.cos Complex.cos)
  | tan => some (Tensor.elementary Float.tan Complex.tan)
  | trunc => some Tensor.truncated
  | logit => some (Tensor.special Special.logit)
  | logistic => some (Tensor.special Special.logistic)
  | phi => some (Tensor.specialOrComplex Special.normalCdf Complex.normalCdf)
  | probit => some (Tensor.special Special.normalQuantile)
  | loggam => some (Tensor.special Special.logGamma)
  | _ => none

/-- A result, written into an array if there is one. -/
def output (t : Tensor Value) : List Value → Except Failure Value
  | [] | [missing] => .ok (ofTensor t)
  | [tensor target] => (target.assign t).map tensor
  | _ => .error .unsuitableKind

/-- A power, cell by cell. -/
def power (a b : Value) (out : List Value) : Except Failure Value := do
  output (← Operand.arith .pow (← Operand.ofValue a) (← Operand.ofValue b)) out

/-- `1 - exp (-exp x)`. -/
def complementaryExp (v : Value) : Formula := 1.0 - (-(Formula.of v).exp).exp

/-- `log (-log (1 - x))`. -/
def complementaryLog (v : Value) : Formula := (-(-(Formula.of v)).log1p).log

/-- The logarithm of the gamma function at `x + 1`. -/
def logFactorial (v : Value) : Formula :=
  let array : Formula := ⟨v.tensor?.map tensor⟩
  (array + 1).special₁ Special.logGamma

/-- A number of decimal places, or a switch that is off at zero. -/
def setting? : Value → Except Failure Int
  | number (.int i) | cell .byte (number (.int i)) | cell .word (number (.int i))
  | cell .unsigned (number (.int i)) | tensor ⟨_, [], [number (.int i)]⟩ =>
    if i.natAbs < 2147483648 || i = -2147483648 then .ok i else .error .overflow
  | number (.truth b) => .ok (if b then 1 else 0)
  | _ => .error .unsuitableKind

/-- Rounding to decimal places. An array that the result is written into has as many cells; without
one, integers stay integers. -/
def rounded (v : Value) (places : Int) (out : List Value) : Except Failure Value := do
  let t ← v.tensor?
  match out with
  | [tensor target] =>
    if target.cells.length ≠ t.cells.length then throw .unsuitableValue
    let t := if t.kind.isWords && places < 0 then t.toKind .real else t
    output (← t.rounded places) out
  | _ => output (← t.rounded places) out

/-! ## Reductions -/

/-- The greater or lesser of two values, cell by cell. -/
def extremes (greatest : Bool) (a b : Value) : Except Failure Value := do
  let (s, t) ← Operand.pair Operand.beside (← Operand.ofValue a) (← Operand.ofValue b)
  return ofTensor (← s.extremes greatest t)

/-- The greatest or the least of all cells of one argument, or of several arguments cell by cell. -/
def extreme (greatest : Bool) (args : List Value) : Except Failure Value :=
  match args with
  | [] => .error .unsuitableKind
  | [v] => do return ofTensor (← (← v.tensor?).extremeCell greatest)
  | v :: rest => rest.foldlM (extremes greatest) v

/-- The number of an axis. -/
def axis? : Value → Except Failure Int
  | number (.int i) | cell .byte (number (.int i)) | cell .word (number (.int i))
  | cell .unsigned (number (.int i)) | tensor ⟨_, [], [number (.int i)]⟩ =>
    if !CellKind.word.fits i then .error .overflow
    else if i.natAbs < 2147483648 then .ok i
    else .error .unsuitableValue
  | _ => .error .unsuitableKind

/-- What a reduction is asked for besides the axis: an array for the result, and whether the axes
that vanish are kept with an extent of one. -/
structure ReductionOptions where
  out : List Value := []
  keepsAxes : Bool := false

/-- The options of a reduction from the arguments after the axis; the kind of the result cannot be
chosen. -/
def reductionOptions? : List Value → Except Failure ReductionOptions
  | [] | [missing] => .ok ⟨[], false⟩
  | [missing, out] => .ok ⟨[out], false⟩
  | [missing, out, keep] => (setting? keep).map fun i => ⟨[out], i ≠ 0⟩
  | _ => .error .unsuitableKind

/-- The shape of a reduction if the axes that vanish are kept. -/
def keptShape (shape : List Nat) : Option Nat → List Nat
  | none => List.replicate shape.length 1
  | some axis => shape.set axis 1

/-- The result of a reduction of an array of a shape. An array for it has the same shape. -/
def reduced (options : ReductionOptions) (shape : List Nat) (axis : Option Nat)
    (t : Tensor Value) : Except Failure Value :=
  let t := if options.keepsAxes then { t with shape := keptShape shape axis } else t
  match options.out with
  | [tensor target] =>
    if target.shape = t.shape then output t options.out else .error .unsuitableValue
  | out => output t out

/-- The sum of all cells of an array, or of the cells along an axis. An array without axes has a
single row. -/
def total (v : Value) (axis : Option Value) (further : List Value) : Except Failure Value := do
  let t ← v.tensor?
  let options ← reductionOptions? further
  let sums (k : Option Nat) : Except Failure Value := do
    reduced options t.shape k (← t.sum k)
  match axis with
  | none | some missing => sums none
  | some a =>
    let i ← axis? a
    if t.shape.isEmpty && (i = 0 || i = -1) then sums none
    else sums (some (← Tensor.axisIndex t.shape.length i))

/-- The mean of all cells of an array, or of the cells along an axis. A truth value is the number of
an axis, but not an axis. -/
def average (v : Value) (axis : Option Value) (further : List Value) : Except Failure Value := do
  let t ← v.tensor?
  let means (k : Option Nat) : Except Failure Value := do
    reduced (← reductionOptions? further) t.shape k (← t.mean k)
  match axis with
  | none | some missing => means none
  | some a =>
    let i ← match a with
      | number (.truth b) => pure (if b then 1 else 0)
      | a => axis? a
    let k ← Tensor.axisIndex t.shape.length i
    let _ ← reductionOptions? further
    let _ ← axis? a
    means (some k)

/-- The inner product of two values read as lists. -/
def innerProduct (a b : Value) : Except Failure Value := do
  let s ← a.tensor?
  return ofTensor (← s.dot (← b.tensor?))

/-! ## The table -/

/-- One if a comparison holds, else zero. -/
def indicator (v : Except Failure Value) : Except Failure Value := do
  let holds ← (← v).isTrue
  return int (if holds then 1 else 0)

/-- The value of a call. -/
def apply (f : Function) (args : List Value) : Except Failure Value :=
  match f, args with
  | pow, a :: b :: out => power a b out
  | cloglog, [v] => (complementaryLog v).value
  | cexpexp, [v] => (complementaryExp v).value
  | step, [v] => indicator (BinaryOp.ge.apply v (int 0))
  | equals, [a, b] => indicator (BinaryOp.eq.apply a b)
  | max, args => extreme true args
  | min, args => extreme false args
  | sum, v :: axis => total v axis.head? (axis.drop 1)
  | mean, v :: axis => average v axis.head? (axis.drop 1)
  | sd, [v] => do return cell .real (float (← v.floats?).deviation)
  | inprod, [a, b] => innerProduct a b
  | round, [v] => rounded v 0 []
  | round, v :: d :: out => do rounded v (← setting? d) out
  | logfact, [v] => (logFactorial v).value
  | ofLaw g, [d, x] =>
    match d with
    | distribution f ps => g.evaluate f ps x
    | _ => .error .lacksFeature
  | f, v :: out =>
    match f.onCells? with
    | some g => do output (← g (← v.tensor?)) out
    | none => .error .unsuitableKind
  | _, [] => .error .unsuitableKind

end Function

end PlateModel
