import PlateModel.Distribution.Moments
import PlateModel.Random.Ziggurat

/-!
# Draws from laws

Each family has its own way to turn random bits into a draw from its standard law: by inverting the
distribution function, by transforming draws from simpler laws, or by rejection. A law on a single
point needs no bits.

* `Distribution.draw`: a draw from a distribution, if its parameters are in their domain.
-/

namespace PlateModel.Random

/-- A draw from the gamma law of a shape. Shapes above one use a transformed normal draw, shapes
below one a mixture of a power and an exponential. -/
def gamma (shape : Float) : Drawing Float :=
  if shape == 1.0 then exponential
  else if shape == 0.0 then return 0.0
  else if shape < 1.0 then
    accept 0.0 patience do
      let u ← unit
      let v ← exponential
      if u ≤ 1.0 - shape then
        let x := Float.pow u (1.0 / shape)
        return if x ≤ v then some x else none
      let y := -Float.log ((1.0 - u) / shape)
      let x := Float.pow (1.0 - shape + shape * y) (1.0 / shape)
      return if x ≤ v + y then some x else none
  else
    let b := shape - 1.0 / 3.0
    let c := 1.0 / Float.sqrt (9.0 * b)
    accept 0.0 patience do
      let x ← normal
      let root := 1.0 + c * x
      if root ≤ 0.0 then return none
      let v := root * root * root
      let u ← unit
      if u < 1.0 - 0.0331 * (x * x) * (x * x) then return some (b * v)
      return if Float.log u < 0.5 * x * x + b * (1.0 - v + Float.log v) then some (b * v) else none

/-- A draw from the beta law, by powers of two uniform draws or by two gamma draws. -/
def beta (a b : Float) : Drawing Float :=
  if a ≤ 1.0 && b ≤ 1.0 then
    accept 0.0 patience do
      let u ← unit
      let v ← unit
      let x := Float.pow u (1.0 / a)
      let y := Float.pow v (1.0 / b)
      return if x + y ≤ 1.0 && x + y > 0.0 then some (x / (x + y)) else none
  else do
    let x ← gamma a
    let y ← gamma b
    return x / (x + y)

/-- A draw from the logistic law, by inversion. -/
def logistic : Drawing Float :=
  accept 0.0 patience do
    let u ← unit
    return if u > 0.0 then some (Float.log (u / (1.0 - u))) else none

/-- A draw from the Laplace law, by inversion of either half. -/
def laplace : Drawing Float :=
  accept 0.0 patience do
    let u ← unit
    if u ≥ 0.5 then return some (-Float.log (2.0 - u - u))
    return if u > 0.0 then some (Float.log (u + u)) else none

/-- A draw from the Poisson law of a small mean: how many uniform draws can be multiplied. -/
def poissonByProduct (mean : Float) : Drawing Float :=
  let limit := Float.exp (-mean)
  let rec count : Nat → Float → Float → Drawing Float
    | 0, k, _ => return k
    | n + 1, k, product => do
      let product := product * (← unit)
      if product > limit then count n (k + 1.0) product else return k
  count patience 0.0 1.0

/-- A draw from the Poisson law of a large mean, by rejection under a transformed uniform draw. -/
def poissonByRejection (mean : Float) : Drawing Float :=
  let b := 0.931 + 2.53 * Float.sqrt mean
  let a := -0.059 + 0.02483 * b
  let inverseAlpha := 1.1239 + 1.1328 / (b - 3.4)
  let border := 0.9277 - 3.6224 / (b - 2.0)
  accept mean.floor patience do
    let u := (← unit) - 0.5
    let v ← unit
    let rest := 0.5 - u.abs
    let k := Float.floor ((2.0 * a / rest + b) * u + mean + 0.43)
    if rest ≥ 0.07 && v ≤ border then return some k
    if k < 0.0 || (rest < 0.013 && v > rest) then return none
    let left := Float.log v + Float.log inverseAlpha - Float.log (a / (rest * rest) + b)
    let right := -mean + k * Float.log mean - Special.logGamma (k + 1.0)
    return if left ≤ right then some k else none

def poisson (mean : Float) : Drawing Float :=
  if mean ≥ 10.0 then poissonByRejection mean
  else if mean == 0.0 then return 0.0
  else poissonByProduct mean

/-- Walks along the probabilities of a law, from `x` on, until they cover a uniform draw. -/
def walk (next : Float → Float → Float) : Nat → Float → Float → Float → Float
  | 0, x, _, _ => x
  | n + 1, x, p, u => if u > p then walk next n (x + 1.0) (next (x + 1.0) p) (u - p) else x

/-- A draw from the binomial law with a probability of at most one half. -/
def binomialLower (n p : Float) : Drawing Float := do
  let q := 1.0 - p
  let next := fun x previous => (n - x + 1.0) * p * previous / (x * q)
  let u ← unit
  return min n (walk next patience 0.0 (Float.exp (n * Special.log1p (-p))) u)

def binomial (n p : Float) : Drawing Float :=
  if n == 0.0 || p == 0.0 then return 0.0
  else if p ≤ 0.5 then binomialLower n p
  else do return n - (← binomialLower n (1.0 - p))

/-- A draw from the geometric law: a walk if steps are likely to end soon, else by inversion. -/
def geometric (p : Float) : Drawing Float := do
  if p ≥ 0.3333333333333333 then
    let u ← unit
    return walk (fun _ previous => previous * (1.0 - p)) patience 1.0 p u
  return Float.ceil (-(← exponential) / Special.log1p (-p))

/-- The first number whose cumulated probability reaches a uniform draw; the first of all if none
does. -/
def category (ps : List Float) : Drawing Float := do
  let u ← unit
  let sums := (ps.foldl (fun (acc, sum) p => (acc ++ [sum + p], sum + p)) ([], 0.0)).1
  return Float.ofNat ((sums.findIdx? (u ≤ ·)).getD 0 + 1)

/-- A draw from the standard law of a family. -/
def standard (f : Family) (ps : List Float) : Drawing Float :=
  match f, ps with
  | .normal, _ => normal
  | .logNormal, [s] => do return Float.exp (s * (← normal))
  | .student, [k] => do
    let x ← normal
    let g ← gamma (k / 2.0)
    return Float.sqrt (k / 2.0) * x / Float.sqrt g
  | .logistic, _ => logistic
  | .laplace, _ => laplace
  | .gamma, [a] => gamma a
  | .exponential, _ => exponential
  | .beta, [a, b] => beta a b
  | .uniform, _ => unit
  | .weibull, [c] => do return Float.pow (-Special.log1p (-(← unit))) (1.0 / c)
  | .chiSquared, [k] => do return 2.0 * (← gamma (k / 2.0))
  | .poisson, [m] => poisson m
  | .bernoulli, [p] => binomial 1.0 p
  | .binomial, [n, p] => binomial n p
  | .negativeBinomial, [n, p] => do poisson ((1.0 - p) / p * (← gamma n))
  | .geometric, [p] => geometric p
  | .categorical, ps => category ps
  | _, _ => return Binary64.nan

/-- A draw from a law that is not concentrated on its location. -/
def moved (f : Family) (ps : List Float) (location scale : Float) : Drawing Value := do
  let x ← standard f ps
  if !f.isDiscrete then return .float (x * scale + location)
  return match Binary64.truncate? x with
    | some i => .int i
    | none => .float x

end PlateModel.Random

namespace PlateModel.Distribution

open Formula LawFunction PlateModel.Random

/-- Whether a distribution has draws. Unlike a density, they make sense if there is a single point.
-/
def checkDraws (d : Distribution) (p : Parameters) : Except Failure Unit := do
  let ok ← ((d.family.isAdmissible p.formulas).both ((ofTensor p.scale).atLeast 0)).tensor?
  if !(truths ok.shape ok).all id then throw .unsuitableValue
  if d.family = .binomial && (p.shapes.head?.any (·.kind.isFloats)) then throw .unsuitableKind

/-- The parameters of the single laws of a distribution, each with location and scale, and the
shape of the array that they form. -/
def laws (d : Distribution) (p : Parameters) :
    Except Failure (List Nat × List (List Float × Float × Float)) := do
  let columns ← (p.shapes ++ [p.location, p.scale]).mapM Tensor.toReal
  if d.family = .categorical then return ([], [(p.shapes.flatMap (·.floats), 0.0, 1.0)])
  let shape ← p.shape d.family
  let cells := columns.map fun t => (t.spread shape).map Value.toFloat
  let law (i : Nat) : List Float × Float × Float :=
    match (cells.filterMap (·[i]?)).reverse with
    | scale :: location :: ps => (ps.reverse, location, scale)
    | ps => (ps, 0.0, 1.0)
  return (shape, (List.range (Shape.size shape)).map law)

/-- A draw from a distribution. -/
def draw (d : Distribution) : ExceptT Failure Drawing Value := do
  let p ← Parameters.of d.parameters
  d.checkDraws p
  let (shape, laws) ← d.laws p
  if laws.all fun (_, _, scale) => scale == 0.0 then
    return (Value.ofTensor (.ofFloats shape (laws.map fun (_, location, _) => location))).unwrap
  let draws ← laws.mapM fun (ps, location, scale) =>
    (moved d.family ps location scale : ExceptT Failure Drawing Value)
  let kind := if d.family.isDiscrete then CellKind.word else .real
  return (Value.ofTensor ⟨kind, shape, draws⟩).unwrap

end PlateModel.Distribution
