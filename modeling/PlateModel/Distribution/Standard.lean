import PlateModel.Distribution.Binomial
import PlateModel.Value.Formula

/-!
# Standard laws

The laws of a family as formulas of their parameters, before they are moved by a location and
stretched by a scale: which parameters are in the domain, the least and the greatest value, the
distribution function, the density and its logarithm. The density of a discrete law at a point is
the probability of the point.

* `Family.isAdmissible`: whether parameters are in their domain.
* `Family.bounds`: the least and the greatest value.
* `Family.cdf`, `Family.density`, `Family.logDensity`: functions at the points of the support.
-/

namespace PlateModel

namespace Formula

/-- Whether one formula is greater than another one, cell by cell. -/
def greater : Formula → Formula → Formula := binary .gt

def atLeast : Formula → Formula → Formula := binary .ge

def atMost : Formula → Formula → Formula := binary .le

def less : Formula → Formula → Formula := binary .lt

def equal : Formula → Formula → Formula := binary .eq

/-- Whether two formulas hold, cell by cell. -/
def both : Formula → Formula → Formula := binary .and

def xlogy : Formula → Formula → Formula := special₂ Special.xlogy

def xlog1py : Formula → Formula → Formula := special₂ Special.xlog1py

def logGamma : Formula → Formula := special₁ Special.logGamma

end Formula

namespace Family

open Formula

/-- Whether the parameters of a standard law are in their domain. -/
def isAdmissible (f : Family) (ps : List Formula) : Formula :=
  match f, ps with
  | poisson, [m] => m.atLeast 0
  | bernoulli, [p] => (p.atLeast 0).both (p.atMost 1)
  | binomial, [n, p] =>
    (((n.atLeast 0).both (n.equal n.round)).both (p.atLeast 0)).both (p.atMost 1)
  | negativeBinomial, [n, p] => ((n.greater 0).both (p.greater 0)).both (p.atMost 1)
  | geometric, [p] => (p.atMost 1).both (p.greater 0)
  | categorical, _ => of (.truth true)
  | _, ps => ps.foldl (fun all p => all.both (p.greater 0)) (of (.truth true))

/-- The least and the greatest value of a standard law. -/
def bounds (f : Family) (ps : List Formula) : Formula × Formula :=
  let infinity := of (.float Binary64.infinity)
  match f, ps with
  | normal, _ | student, _ | logistic, _ | laplace, _ => (-infinity, infinity)
  | beta, _ | uniform, _ => (0.0, 1.0)
  | bernoulli, _ => (0, 1)
  | binomial, [n, _] => (0, n)
  | poisson, _ | negativeBinomial, _ => (0, infinity)
  | geometric, _ => (1, infinity)
  | categorical, [ps] => (1, ps.map fun t => .ok (.single .word (.int t.cells.length)))
  | _, _ => (0.0, infinity)

/-- The logarithm of the greatest density of the standard normal law, with a minus sign. -/
def logRootTwoPi : Float := 0.9189385332046728

/-- The logarithm of the density of the standard normal law. -/
def normalLogDensity (x : Formula) : Formula := -(x.pow 2) / 2.0 - real logRootTwoPi

/-- The probability of a category, the first one being one. -/
def categoryProbability (ps : List Float) (x : Float) : Float :=
  ((ps.mapIdx fun i p => (Float.ofNat (i + 1), p)).lookup x).getD 0.0

/-- A function of the probabilities of all categories. -/
def atCategories (f : List Float → Float → Float) (ps x : Formula) : Formula := ⟨do
  let weights := (← ps.tensor?).floats
  (x.special₁ (f weights)).value⟩

/-- The logarithm of a binomial probability. -/
def binomialLogDensity (n p x : Formula) : Formula :=
  let k := x.floor
  let choices := (n + 1).logGamma - ((k + 1).logGamma + (n - k + 1).logGamma)
  choices + k.xlogy p + (n - k).xlog1py (-p)

/-- The density of a beta law. It may be too large for a float, also on the way. -/
def betaDensity (x a b : Float) : Except Failure Float :=
  let y := 1.0 - x
  let unit := 1.0 / (x * y)
  let atEnd (c : Float) : Except Failure Float :=
    if c < 1.0 then .ok Binary64.infinity
    else if c == 1.0 then .ok (1.0 / Float.exp (Special.logBeta a b))
    else .ok 0.0
  if x.isNaN then .ok x
  else if x ≤ 0.0 then atEnd a
  else if x ≥ 1.0 then atEnd b
  else if unit.isInf then
    if a > 1.0 then .ok 0.0
    else if a == 1.0 then .ok (1.0 / Float.exp (Special.logBeta a b))
    else .error .overflow
  else
    let weight := Special.binomialWeight a b x y * (a * (b / (a + b))) * unit
    if (100.0 * unit * Float.sqrt b).isInf || weight.isInf then .error .overflow else .ok weight

/-- The logarithm of the density of a standard law. -/
def logDensity (f : Family) (ps : List Formula) (x : Formula) : Formula :=
  match f, ps with
  | normal, _ => normalLogDensity x
  | logNormal, [s] =>
    choose (· == 0.0) x (real Binary64.negInfinity)
      (-(x.log.pow 2) / (2 * s.pow 2) - (s * x * real (Float.sqrt (2.0 * Special.pi))).log)
  | student, [k] =>
    choose (·.isInf) k (normalLogDensity x)
      (((0.5 * k).special₁ Special.halfStep).log - 0.5 * (k.log + real (Float.log Special.pi)) -
        (k + 1) / 2 * (x * x / k).log1p)
  | logistic, _ =>
    let y := -x.abs
    y - 2.0 * y.exp.special₁ Special.log1p
  | laplace, _ => (0.5 * (-x.abs).exp).log
  | gamma, [a] => (a - 1.0).xlogy x - x - a.logGamma
  | exponential, _ => -x
  | beta, [a, b] =>
    (b - 1.0).xlog1py (-x) + (a - 1.0).xlogy x - special₂ Special.logBeta a b
  | uniform, _ => x.special₁ fun _ => 0.0
  | weibull, [c] => c.log + (c - 1).xlogy x - x.pow c
  | chiSquared, [k] =>
    (k / 2.0 - 1).xlogy x - x / 2.0 - (k / 2.0).logGamma - real (Float.log 2.0) * k / 2.0
  | poisson, [m] => x.xlogy m - (x + 1).logGamma - m
  | bernoulli, [p] => binomialLogDensity 1 p x
  | binomial, [n, p] => binomialLogDensity n p x
  | negativeBinomial, [n, p] =>
    (n + x).logGamma - (x + 1).logGamma - n.logGamma + n * p.log + x.xlog1py (-p)
  | geometric, [p] => (x - 1).xlog1py (-p) + p.log
  | categorical, [ps] => atCategories (fun ps x => Float.log (categoryProbability ps x)) ps x
  | _, _ => failing .unsuitableKind

/-- The density of a standard law. -/
def density (f : Family) (ps : List Formula) (x : Formula) : Formula :=
  match f, ps with
  | normal, _ => (-(x.pow 2) / 2.0).exp / real (Float.sqrt (2.0 * Special.pi))
  | laplace, _ => 0.5 * (-x.abs).exp
  | exponential, _ => (-x).exp
  | beta, [a, b] =>
    special (fun
      | [x, a, b] => betaDensity x a b
      | _ => .error .unsuitableKind) [x, a, b]
  | uniform, _ => x.special₁ fun _ => 1.0
  | weibull, [c] => c * x.pow (c - 1) * (-(x.pow c)).exp
  | bernoulli, [p] => special₃ Binomial.density 1 p x
  | binomial, [n, p] => special₃ Binomial.density n p x
  | negativeBinomial, [n, p] => special₃ Binomial.waitingDensity n p x
  | geometric, [p] => (1 - p).pow (x - 1) * p
  | categorical, [ps] => atCategories categoryProbability ps x
  | f, ps => (f.logDensity ps x).exp

/-- The distribution function of the law of Student with some degrees of freedom. -/
def studentCdf (k x : Float) : Float :=
  if k.isInf then Special.normalCdf x
  else
    let square := x * x
    let tail := 0.5 * Special.betaIncomplete (k / 2.0) 0.5 (k / (k + square))
      (if square == 0.0 then 0.0 else 1.0 / (1.0 + k / square))
    if x > 0.0 then 1.0 - tail else tail

/-- The distribution function of a standard law. -/
def cdf (f : Family) (ps : List Formula) (x : Formula) : Formula :=
  match f, ps with
  | normal, _ => x.special₁ Special.normalCdf
  | logNormal, [s] => (x.log / s).special₁ Special.normalCdf
  | student, [k] => special₂ studentCdf k x
  | logistic, _ => x.special₁ Special.logistic
  | laplace, _ =>
    x.special₁ fun x => if x > 0.0 then 1.0 - 0.5 * Float.exp (-x) else 0.5 * Float.exp x
  | gamma, [a] => special₂ Special.gammaLower a x
  | exponential, _ => -(-x).special₁ Special.expm1
  | beta, [a, b] => special₃ (fun a b x => Special.betaIncomplete a b x (1.0 - x)) a b x
  | uniform, _ => x
  | weibull, [c] => -(-(x.pow c)).special₁ Special.expm1
  | chiSquared, [k] => special₂ (fun k x => Special.gammaLower (k / 2.0) (x / 2.0)) k x
  | poisson, [m] =>
    special₂ (fun k m => if m == 0.0 then 1.0 else Special.gammaUpper (k + 1.0) m) x.floor m
  | bernoulli, [p] => special₃ Binomial.cdf 1 p x.floor
  | binomial, [n, p] => special₃ Binomial.cdf n p x.floor
  | negativeBinomial, [n, p] => special₃ Binomial.waitingCdf n p x.floor
  | geometric, [p] => -((-p).log1p * x.floor).expm1
  | categorical, [ps] =>
    atCategories (fun ps x => (ps.take x.floor.toUInt64.toNat).foldl (· + ·) 0.0) ps x
  | _, _ => failing .unsuitableKind

end Family

end PlateModel
