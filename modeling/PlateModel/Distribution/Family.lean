/-!
# Families of distributions

The families that a model may name. The set of names is closed.

* `Family.ofName?`: the families by the names that models use.
-/

namespace PlateModel

/-- A family of distributions. -/
inductive Family
  | normal | logNormal | student | logistic | laplace | gamma | exponential | beta | uniform
  | weibull | chiSquared | poisson | bernoulli | binomial | negativeBinomial | geometric
  | categorical
  deriving Repr, DecidableEq, Inhabited

namespace Family

/-- The name of a family in messages. -/
def name : Family → String
  | normal => "norm"
  | logNormal => "lognorm"
  | student => "t"
  | logistic => "logistic"
  | laplace => "laplace"
  | gamma => "gamma"
  | exponential => "expon"
  | beta => "beta"
  | uniform => "uniform"
  | weibull => "weibull_min"
  | chiSquared => "chi2"
  | poisson => "poisson"
  | bernoulli => "bernoulli"
  | binomial => "binom"
  | negativeBinomial => "nbinom"
  | geometric => "geom"
  | categorical => "categorical"

/-- The names that models use, each with its family. -/
def table : List (String × Family) := [
  ("dnorm", normal), ("dlnorm", logNormal), ("dt", student), ("dlogis", logistic),
  ("ddexp", laplace), ("dgamma", gamma), ("dexp", exponential), ("dbeta", beta),
  ("dunif", uniform), ("dweib", weibull), ("dchisqr", chiSquared), ("dpois", poisson),
  ("dbern", bernoulli), ("dbin", binomial), ("dnegbin", negativeBinomial), ("dgeom", geometric),
  ("dcat", categorical)]

/-- The family that a model names. -/
def ofName? (f : String) : Option Family := table.lookup f

/-- How many parameters a model gives. -/
def arity : Family → Nat
  | student => 3
  | exponential | chiSquared | poisson | bernoulli | geometric | categorical => 1
  | _ => 2

/-- Whether the laws of a family have probabilities of single points. -/
def isDiscrete : Family → Bool
  | poisson | bernoulli | binomial | negativeBinomial | geometric | categorical => true
  | _ => false

end Family

/-- Whether a name is one of a distribution. -/
def isDistribution (f : String) : Bool := (Family.ofName? f).isSome

end PlateModel
