import PlateModel.Distribution.Evaluation

/-!
# Moments and support of distributions

Mean and variance of a distribution, its least and greatest value, and the probabilities of all
values of a discrete one. None of them is a number where the parameters are not in their domain.

* `Distribution.mean`, `Distribution.variance`, `Distribution.support`.
* `Distribution.probabilities`.
-/

namespace PlateModel

/-- What is known of a standard law besides its functions. None of these is known without all
others. -/
structure Moments where
  mean : Formula
  variance : Formula
  skewness : Formula
  kurtosis : Formula

namespace Family

open Formula

/-- The `n`th moment of the numbers from one on with the given probabilities. -/
def categoryMoment (n : Nat) (ps : Formula) : Formula := ⟨do
  let ps := (← ps.tensor?).floats
  return .cell .real
    (.float (0.0 + sumPairwise (ps.mapIdx fun i p => Float.ofNat (power (i + 1) n) * p)))⟩

/-- The mean and the variance, where nothing else is asked. -/
def pair (mean variance : Formula) : Moments := ⟨mean, variance, 0.0, 0.0⟩

/-- The moments of a law with more degrees of freedom than some have a finite value. -/
def studentMoments (k : Formula) : Moments :=
  let mean (k : Float) : Float := if k > 1.0 then 0.0 else Binary64.infinity
  let variance (k : Float) : Float :=
    if k > 1.0 && k ≤ 2.0 then Binary64.infinity
    else if k > 2.0 && k.isFinite then k / (k - 2.0)
    else if k.isInf then 1.0
    else Binary64.nan
  pair (k.special₁ mean) (k.special₁ variance)

/-- The moments of a beta law. -/
def betaMoments (a b : Formula) : Moments :=
  let s := a + b
  let top := 6 * ((a - b).pow 2 * (s + 1) - a * b * (s + 2))
  { mean := a / s
    variance := a * b / (s.pow 2 * (s + 1))
    skewness := 2 * (b - a) * (s + 1).sqrt / ((s + 2) * (a * b).sqrt)
    kurtosis := top / (a * b * (s + 2) * (s + 3)) }

/-- The moments of a Weibull law. If the mean is infinite, so is the variance. -/
def weibullMoments (c : Formula) : Moments :=
  let moment (n : Float) : Formula := (1.0 + of (.float n) / c).special₁ Special.gamma
  let mean := moment 1.0
  pair mean (choose (·.isInf) mean (real Binary64.infinity) (moment 2.0 - mean.pow 2))

/-- The moments of the number of successes in `n` trials. -/
def binomialMoments (n p : Formula) : Moments := pair (n * p) (n * p - n * p.square)

/-- The moments of the number of failures before the success with number `n`. -/
def waitingMoments (n p : Formula) : Moments :=
  let q := 1.0 / p
  let r := q - 1.0
  { mean := n * r
    variance := n * r * q
    skewness := (q + r) / (n * r * q).sqrt
    kurtosis := (1.0 + 6 * r * q) / (n * r * q) }

/-- The moments of a standard law. -/
def moments (f : Family) (ps : List Formula) : Moments :=
  match f, ps with
  | normal, _ => pair 0.0 1.0
  | logNormal, [s] =>
    let p := (s * s).exp
    ⟨p.sqrt, p * (p - 1), (p - 1).sqrt * (2 + p), 0.0⟩
  | student, [k] => studentMoments k
  | logistic, _ => pair 0 (of (.float (Special.pi * Special.pi / 3.0)))
  | laplace, _ => pair 0 2
  | gamma, [a] => ⟨a, a, 2.0 / a.sqrt, 6.0 / a⟩
  | exponential, _ => pair 1.0 1.0
  | beta, [a, b] => betaMoments a b
  | uniform, _ => pair 0.5 (of (.float (1.0 / 12.0)))
  | weibull, [c] => weibullMoments c
  | chiSquared, [k] => ⟨k, 2 * k, 2 * (2.0 / k).sqrt, 12.0 / k⟩
  | poisson, [m] => ⟨m, m, (1.0 / m).sqrt, 1.0 / m⟩
  | bernoulli, [p] => binomialMoments 1 p
  | binomial, [n, p] => binomialMoments n p
  | negativeBinomial, [n, p] => waitingMoments n p
  | geometric, [p] => ⟨1.0 / p, (1.0 - p) / p / p, (2.0 - p) / (1.0 - p).sqrt, 1.0 / (1.0 - p)⟩
  | categorical, [ps] =>
    let mean := categoryMoment 1 ps
    pair mean (categoryMoment 2 ps - mean.pow 2)
  | _, _ => pair (failing .unsuitableKind) (failing .unsuitableKind)

end Family

/-- A distribution: a family and the parameters of its laws. -/
structure Distribution where
  family : Family
  parameters : List Value
  deriving Inhabited

/-- The distribution that a value is. -/
def Value.distribution? : Value → Option Distribution
  | distribution f ps => some ⟨f, ps⟩
  | _ => none

namespace Distribution

open Formula LawFunction

/-- A moment of a distribution, from the moments of the standard law, the scale and the location.
-/
def moment (d : Distribution) (g : Moments → Formula → Formula → Formula) :
    Except Failure Value := do
  let p ← Parameters.of d.parameters
  let ps := p.formulas
  let scale := ofTensor p.scale
  let location := ofTensor p.location
  let chosen ← (((d.family.isAdmissible ps).both (scale.greater 0)).both
    (location.equal location)).tensor?
  let bs := truths chosen.shape chosen
  let nothing := bs.map fun _ => Binary64.nan
  if !bs.any id then return Value.ofTensor (.ofFloats chosen.shape nothing)
  let p := p.select d.family chosen.shape bs
  let m := d.family.moments p.formulas
  let _ ← m.mean.value
  let _ ← m.variance.value
  let _ ← m.skewness.value
  let _ ← m.kurtosis.value
  return Value.ofTensor
    (← Tensor.place chosen.shape nothing bs (g m (ofTensor p.scale) (ofTensor p.location)))

def mean (d : Distribution) : Except Failure Value :=
  d.moment fun m scale location => m.mean * scale + location

def variance (d : Distribution) : Except Failure Value :=
  d.moment fun m scale _ => m.variance * scale * scale

/-- The least and the greatest value. -/
def support (d : Distribution) : Except Failure (Value × Value) := do
  let p ← Parameters.of d.parameters
  let ps := p.formulas
  let scale := ofTensor p.scale
  let admissible ← ((d.family.isAdmissible ps).both (scale.greater 0)).tensor?
  let shape ← p.shape d.family
  let (low, high) := d.family.bounds ps
  let bs := truths shape admissible
  let stretch (a : Formula) : Formula := a * scale + ofTensor p.location
  if bs.all id then return (← (stretch low).value, ← (stretch high).value)
  if shape.isEmpty then return (.float Binary64.nan, .float Binary64.nan)
  let fill (a : Formula) : Except Failure Value := do
    let t ← (← (stretch a).tensor?).toReal
    return .tensor (.ofFloats shape (List.zipWith (fun b c => if b then c else Binary64.nan) bs
      ((t.spread shape).map Value.toFloat)))
  return (← fill low, ← fill high)

/-- An end of the support of a single law, as an integer. -/
def endpoint (v : Value) : Except Failure Int :=
  match v.unwrap with
  | .number (.real x) =>
    match Binary64.truncate? x with
    | some i => .ok i
    | none => .error (if x.isNaN then .unsuitableValue else .overflow)
  | .number n => .ok (n.integer?.getD 0)
  | _ => .error .unsuitableKind

/-- The probabilities of all values of a discrete law with finite support. -/
def probabilities (d : Distribution) : Except Failure (List Float) := do
  let (low, high) ← d.support
  if !d.family.isDiscrete then throw .lacksFeature
  let low ← endpoint low
  let high ← endpoint high
  let points := (List.range (high + 1 - low).toNat).map fun i : Nat => Value.int (low + i)
  let p ← LawFunction.density.evaluate d.family d.parameters
    (.tensor ⟨.word, [points.length], points⟩)
  return (← p.tensor?).floats

end Distribution

end PlateModel
