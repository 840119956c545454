import PlateModel.Binary64.Sum
import PlateModel.Value.Formula

/-!
# Parameters of distributions

A model gives the parameters of a distribution in its own terms: precisions instead of scales, rates
instead of their inverses. They become the parameters of a standard law, a location and a scale.
Parameters may be arrays, and then so is everything that is known of the distribution. Whether they
are in their domain, or numbers at all, shows only when the distribution is used.

* `Family.make`: the distribution of a family with the parameters that a model gives.
* `Parameters.of`: the arrays of the parameters of a distribution.
-/

namespace PlateModel

namespace Family

/-- The scale that belongs to a precision: one divided by its root. -/
def scaleOfPrecision (τ : Formula) : Formula := 1.0 / τ.sqrt

/-- Whether floats sum to one as closely as probabilities have to. -/
def sumsToOne (ps : List Float) : Bool := (sumPairwise ps - 1.0).abs ≤ 1.0e-8 + 1.0e-5

/-- Probabilities in proportion to the given weights. -/
def categories (weights : List Float) : Except Failure (List Float) :=
  let total := 0.0 + sumPairwise weights
  let ps := weights.map (· / total)
  if !ps.isEmpty && sumsToOne ps && ps.all (fun p => !(p < 0.0)) then .ok ps
  else .error .unsuitableValue

/-- The parameters of the standard law of a family, the location and the scale, from the parameters
that a model gives. -/
def parameters (f : Family) (args : List Value) : Except Failure (List Value) :=
  let values (fs : List Formula) : Except Failure (List Value) := fs.mapM Formula.value
  match f, args.map Formula.of with
  | normal, [mu, tau] => values [mu, scaleOfPrecision tau]
  | logNormal, [mu, tau] => values [scaleOfPrecision tau, 0, mu.exp]
  | student, [mu, tau, k] => values [k, mu, scaleOfPrecision tau]
  | logistic, [mu, tau] | laplace, [mu, tau] => values [mu, 1.0 / tau]
  | gamma, [shape, rate] => values [shape, 0, 1.0 / rate]
  | exponential, [rate] => values [0, 1.0 / rate]
  | beta, [a, b] => values [a, b, 0, 1]
  | uniform, [lower, upper] => values [lower, upper - lower]
  | weibull, [v, rate] => values [v, 0, rate.pow (-1.0 / v)]
  | chiSquared, [x] | poisson, [x] | bernoulli, [x] | geometric, [x] => values [x, 0, 1]
  | binomial, [p, n] | negativeBinomial, [p, n] => values [n, p, 0, 1]
  | _, _ => .error .unsuitableKind

/-- The distribution over the numbers from one on with the given probabilities. -/
def ofCategories (ps : List Float) : Value :=
  .distribution categorical [.tensor (.ofFloats [ps.length] ps), .int 0, .int 1]

/-- The distribution of a family with the parameters that a model gives. -/
def make (f : Family) (args : List Value) : Except Failure Value :=
  match f, args with
  | categorical, [v] => do return ofCategories (← categories (← v.floats?).floats)
  | f, args => (f.parameters args).map (.distribution f)

end Family

namespace Tensor

/-- The cells of an array that are selected from a shape, along one axis. A single cell stands for
all. -/
def select (shape : List Nat) (chosen : List Bool) (t : Tensor Value) : Tensor Value :=
  match t.cells with
  | [c] => ⟨t.kind, [1], [c]⟩
  | _ =>
    let cells := ((t.spread shape).zip chosen).filterMap fun (c, b) => if b then some c else none
    ⟨t.kind, [cells.length], cells⟩

/-- Puts the cells of an array one after the other where they were selected. -/
def refill (background : List Value) (chosen : List Bool) (cells : List Value) : List Value :=
  match background, chosen, cells with
  | _ :: bs, true :: rest, c :: cs => c :: refill bs rest cs
  | b :: bs, _ :: rest, cs => b :: refill bs rest cs
  | bs, _, _ => bs

/-- Floats with the value of a formula where cells are selected. The formula has to give floats; a
single one stands for all. -/
def place (shape : List Nat) (background : List Float) (chosen : List Bool) (a : Formula) :
    Except Failure (Tensor Value) :=
  if !chosen.any id then .ok (.ofFloats shape background)
  else do
    let t ← (← a.tensor?).toReal
    let count := (chosen.filter id).length
    let cells := match t.cells with
      | [c] => List.replicate count c
      | cells => cells
    return ⟨.real, shape, refill (background.map Value.float) chosen cells⟩

end Tensor

/-- The parameters of the standard law of a distribution as arrays, its location and its scale. -/
structure Parameters where
  shapes : List (Tensor Value)
  location : Tensor Value
  scale : Tensor Value

namespace Parameters

/-- The arrays of parameters of which the last two are the location and the scale. -/
def of (ps : List Value) : Except Failure Parameters := do
  match (← ps.mapM Value.tensor?).reverse with
  | scale :: location :: shapes => return ⟨shapes.reverse, location, scale⟩
  | _ => throw .unsuitableKind

/-- The parameters of the standard law as formulas. -/
def formulas (p : Parameters) : List Formula := p.shapes.map Formula.ofTensor

/-- The parameters at the cells that are selected from a shape. The probabilities of categories
belong to a single law. -/
def select (f : Family) (shape : List Nat) (chosen : List Bool) (p : Parameters) : Parameters :=
  let pick (t : Tensor Value) : Tensor Value := t.select shape chosen
  ⟨if f = .categorical then p.shapes else p.shapes.map pick, pick p.location, pick p.scale⟩

/-- The shape of the array of laws. -/
def shape (f : Family) (p : Parameters) : Except Failure (List Nat) :=
  let shapes := if f = .categorical then [] else p.shapes
  (p.scale :: p.location :: shapes).foldlM (fun shape t =>
    match Shape.broadcast? shape t.shape with
    | some shape => .ok shape
    | none => .error .unsuitableValue) []

end Parameters

end PlateModel
