import PlateModel.Special.Incomplete

/-!
# Binomial probabilities

A float between zero and one is a dyadic number `m / 2 ^ d`, and so is what it lacks to one. The
probability of `k` successes in few trials is therefore a quotient of naturals, and one rounding
gives the nearest float. For many trials probabilities come from the error of Stirling's formula,
and their sums from the incomplete beta function.

* `Binomial.density`, `Binomial.cdf`: the law of the successes in so many trials.
* `Binomial.waitingDensity`, `Binomial.waitingCdf`: the law of the failures before so many
  successes.
-/

namespace PlateModel.Binomial

open Special

/-- The number of ways to choose `k` of `n` things. -/
def choose (n k : Nat) : Nat :=
  if n < k then 0 else (List.range k).foldl (fun c i => c * (n - i) / (i + 1)) 1

/-- A probability as a dyadic number: numerator and logarithm of the denominator. -/
def dyadic (p : Float) : Nat × Nat :=
  match Binary64.parts p with
  | .finite _ m e => (m * twoPow e.toNat, (-e).toNat)
  | _ => (0, 0)

/-- The numerator over `2 ^ (d * n)` of the probability of `k` successes, each of probability
`m / 2 ^ d`. -/
def weight (m d n k : Nat) : Nat := choose n k * power m k * power (twoPow d - m) (n - k)

/-- The probability of `k` successes in `n` trials. -/
def point (p : Float) (n k : Nat) : Float :=
  let (m, d) := dyadic p
  Binary64.ofRatio false (weight m d n k) (twoPow (d * n))

/-- The probability of at most `k` successes in `n` trials. -/
def cumulative (p : Float) (n k : Nat) : Float :=
  let (m, d) := dyadic p
  let below := (List.range (k + 1)).foldl (fun sum i => sum + weight m d n i) 0
  Binary64.ofRatio false below (twoPow (d * n))

/-- Beyond this many trials probabilities are computed from logarithms instead. -/
def exactTrials : Nat := 200

/-- A natural number of trials that is small enough for exact probabilities. -/
def trials? (n : Float) : Option Nat :=
  match Binary64.toInt? n with
  | some (.ofNat n) => if n ≤ exactTrials then some n else none
  | _ => none

/-- A function of two counts where both are finite; elsewhere nothing is a number. -/
def amongFinite (f : Float → Float → Float) (n k : Float) : Float :=
  if n.isFinite && k.isFinite then f n k else Binary64.nan

/-- The probability of `k` successes in `n` trials. -/
def density (n p k : Float) : Float :=
  match trials? n, trials? k with
  | some n, some k => point p n k
  | _, _ => amongFinite (fun n k => binomialWeight k (n - k) p (1.0 - p)) n k

/-- The probability of at most `k` successes in `n` trials. -/
def cdf (n p k : Float) : Float :=
  match trials? n, trials? k with
  | some n, some k => cumulative p n k
  | _, _ =>
    amongFinite (fun n k =>
      if k ≥ n then 1.0 else betaIncomplete (n - k) (k + 1.0) (1.0 - p) p) n k

/-- The probability of `k` failures before the success with number `n`. -/
def waitingDensity (n p k : Float) : Float :=
  amongFinite (fun n k => n / (n + k) * binomialWeight n k p (1.0 - p)) n k

/-- The probability of at most `k` failures before the success with number `n`. -/
def waitingCdf (n p k : Float) : Float :=
  amongFinite (fun n k => betaIncomplete n (k + 1.0) p (1.0 - p)) n k

end PlateModel.Binomial
