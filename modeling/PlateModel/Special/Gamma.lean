import PlateModel.Special.Elementary

/-!
# The gamma function

The gamma function and the logarithm of its absolute value, from rational approximations between 2
and 3, the recurrence for other small arguments and asymptotic series for large ones; and what is
made from them: the beta function and the ratio of two gamma functions half a step apart.

* `gamma`, `logGamma`, `logBeta`, `halfStep`.
* `stirlingError`: the logarithm of `gamma (x + 1)` less its approximation.
* `deviance`: how far a count is from its mean.
* `poissonWeight`, `binomialWeight`: the probabilities, also for fractional counts.
-/

namespace PlateModel.Special

private def gammaNumerator : List Float :=
  [0.00016011952247675185, 0.0011913514700658638, 0.010421379756176158,
    0.04763678004571372, 0.20744822764843598, 0.4942148268014971,
    1.0]

private def gammaDenominator : List Float :=
  [-2.3158187332412014e-5, 0.0005396055804933034, -0.004456419138517973,
    0.011813978522206043, 0.035823639860549865, -0.23459179571824335,
    0.0714304917030273, 1.0]

private def gammaStirling : List Float :=
  [0.0007873113957930937, -0.00022954996161337813, -0.0026813261780578124,
    0.0034722222160545866, 0.08333333333334822]

/-- The gamma function of a large number. -/
def gammaLarge (x : Float) : Float :=
  if x ≥ 171.6243769563027 then Binary64.infinity
  else
    let w := 1.0 / x
    let w := 1.0 + w * polynomial gammaStirling w
    let y := Float.exp x
    let y :=
      if x > 143.01608 then
        let v := Float.pow x (0.5 * x - 0.25)
        v * (v / y)
      else Float.pow x (x - 0.5) / y
    2.5066282746310007 * y * w

/-- Moves a number down to below 3, collecting factors. -/
def lowerGamma : Nat → Float → Float → Float × Float
  | 0, x, z => (x, z)
  | fuel + 1, x, z => if x ≥ 3.0 then lowerGamma fuel (x - 1.0) (z * (x - 1.0)) else (x, z)

/-- Moves a number up to 2 at least, collecting divisors. -/
def raiseGamma : Nat → Float → Float → Float × Float
  | 0, x, z => (x, z)
  | fuel + 1, x, z => if x < 2.0 then raiseGamma fuel (x + 1.0) (z / x) else (x, z)

/-- The gamma function of a positive number. -/
def gamma (x : Float) : Float :=
  if x.isNaN then x
  else if x > 33.0 then gammaLarge x
  else if x < 1.0e-9 then 1.0 / ((1.0 + 0.5772156649015329 * x) * x)
  else
    let (x, z) := lowerGamma 40 x 1.0
    let (x, z) := raiseGamma 4 x z
    if x == 2.0 then z
    else
      let y := x - 2.0
      z * polynomial gammaNumerator y / polynomial gammaDenominator y

private def stirling : List Float :=
  [0.0008116141674705085, -0.0005950619042843014, 0.0007936503404577169,
    -0.002777777777300997, 0.08333333333333319]

private def numerator : List Float :=
  [-1378.2515256912086, -38801.631513463784, -331612.9927388712,
    -1162370.974927623, -1721737.0082083966, -853555.6642457654]

private def denominator : List Float :=
  [-351.81570143652345, -17064.210665188115, -220528.59055385445,
    -1139334.4436798252, -2532523.0717758294, -2018891.4143353277]

/-- How far a number is moved down to get below 3, and the product of the factors that the
recurrence collects on the way. -/
def shiftDown (x : Float) : Nat → Float → Float → Float × Float
  | 0, p, z => (p, z)
  | fuel + 1, p, z =>
    if x + p ≥ 3.0 then shiftDown x fuel (p - 1.0) (z * (x + (p - 1.0))) else (p, z)

/-- How far a number is moved up to get to 2, and the quotient by the divisors on the way. -/
def shiftUp (x : Float) : Nat → Float → Float → Float × Float
  | 0, p, z => (p, z)
  | fuel + 1, p, z => if x + p < 2.0 then shiftUp x fuel (p + 1.0) (z / (x + p)) else (p, z)

/-- The logarithm of the absolute value of the gamma function of a number from -34 on. -/
def logGammaUpper (x : Float) : Float :=
  if x < 13.0 then
    let (p, z) := shiftDown x 16 0.0 1.0
    let (p, z) := shiftUp x 64 p z
    let z := z.abs
    if z.isInf || z.isNaN then Binary64.infinity
    else if x + p == 2.0 then Float.log z
    else
      let y := x + (p - 2.0)
      Float.log z + y * polynomial numerator y / monic denominator y
  else if x > 2.556348e305 then Binary64.infinity
  else
    let q := (x - 0.5) * Float.log x - x + 0.9189385332046728
    let p := 1.0 / (x * x)
    if x > 1.0e8 then q
    else if x ≥ 1000.0 then
      q + ((0.0007936507936507937 * p - 0.002777777777777778) * p +
        0.08333333333333333) / x
    else q + polynomial stirling p / x

/-- The logarithm of the absolute value of the gamma function; infinite at zero and at the negative
integers. -/
def logGamma (x : Float) : Float :=
  if !x.isFinite then x
  else if x ≤ 0.0 && x == Float.floor x then Binary64.infinity
  else if x < -34.0 then
    let q := -x
    let p := Float.floor q
    let z := if q - p > 0.5 then p + 1.0 - q else q - p
    1.1447298858494002 - Float.log (q * Float.sin (pi * z)) - logGammaUpper q
  else logGammaUpper x

/-- `gamma (a + 1/2) / gamma a` for a positive `a`. The quotient of two large numbers would lose
digits, so that a series takes its place. -/
def halfStep (a : Float) : Float :=
  if a > 1.0e4 then
    let m := 0.5
    Float.pow a m *
      (1.0 + m * (m - 1.0) / (2.0 * a) +
        m * (m - 1.0) * (m - 2.0) * (3.0 * m - 1.0) / (24.0 * a * a) +
        m * m * (m - 1.0) * (m - 1.0) * (m - 2.0) * (m - 3.0) / (48.0 * a * a * a))
  else Float.exp (logGamma (a + 0.5) - logGamma a)

/-- The logarithm of the beta function where the first argument is much greater than the second. -/
def logBetaUnequal (a b : Float) : Float :=
  logGamma b - b * Float.log a + b * (1.0 - b) / (2.0 * a) +
    b * (1.0 - b) * (1.0 - 2.0 * b) / (12.0 * a * a) +
    -b * b * (1.0 - b) * (1.0 - b) / (12.0 * a * a * a)

/-- The logarithm of the beta function of two positive numbers. -/
def logBeta (a b : Float) : Float :=
  let (a, b) := if a < b then (b, a) else (a, b)
  let limit := 171.6243769563027
  if a > 1.0e6 * b && a > 1.0e6 then logBetaUnequal a b
  else if a + b > limit || a > limit then logGamma a + (logGamma b - logGamma (a + b))
  else
    let c := gamma (a + b)
    let a := gamma a
    let b := gamma b
    if (a.abs - c.abs).abs > (b.abs - c.abs).abs then Float.log (b / c * a).abs
    else Float.log (a / c * b).abs

/-! ## Probabilities near their greatest value

A Poisson or binomial probability is the quotient of large powers and factorials. It is computed
without loss from the error of Stirling's formula and from how far a count is from its mean. -/

/-- The logarithm of `gamma (x + 1)` less the logarithm of `sqrt (2 pi x) * (x / e) ^ x`. -/
def stirlingError (x : Float) : Float :=
  if x < 15.0 then
    logGamma (x + 1.0) - (x + 0.5) * Float.log x + x - 0.9189385332046728
  else
    polynomial [-691.0 / 360360.0, 1.0 / 1188.0, -1.0 / 1680.0, 1.0 / 1260.0, -1.0 / 360.0,
      1.0 / 12.0] (1.0 / (x * x)) / x

/-- The logarithm of `gamma (x + y + 1) / gamma (x + 1)`. Where `x` is large, the logarithms of the
two values nearly cancel. -/
def logGammaRatio (x y : Float) : Float :=
  let n := x + y
  if x < 15.0 then logGamma (n + 1.0) - logGamma (x + 1.0)
  else
    (x + 0.5) * log1p (y / x) + y * Float.log n - y + stirlingError n - stirlingError x

/-- `x * log (x / mean) + mean - x`. Only near the mean do the terms cancel. -/
def deviance (x mean : Float) : Float :=
  if x == 0.0 then mean
  else if (mean - x).abs < 0.5 * (x + mean) then -(x * logExcess ((mean - x) / x))
  else
    let ratio := x / mean
    let logRatio := if ratio.isInf || ratio == 0.0 then Float.log x - Float.log mean
      else Float.log ratio
    x * logRatio + mean - x

/-- `mean ^ x * exp (-mean) / gamma (x + 1)`. -/
def poissonWeight (x mean : Float) : Float :=
  if mean == 0.0 then if x == 0.0 then 1.0 else 0.0
  else if x == 0.0 then Float.exp (-mean)
  else if x < 1.0 then Float.exp (x * Float.log mean - mean - logGamma (x + 1.0))
  else Float.exp (-stirlingError x - deviance x mean) / Float.sqrt (2.0 * pi * x)

/-- `p ^ x * q ^ y * gamma (x + y + 1) / (gamma (x + 1) * gamma (y + 1))` for `p + q = 1`. -/
def binomialWeight (x y p q : Float) : Float :=
  let n := x + y
  let power (base other exponent : Float) : Float :=
    Float.exp (exponent * (if base > other then log1p (-other) else Float.log base))
  if p == 0.0 then if x == 0.0 then 1.0 else 0.0
  else if q == 0.0 then if y == 0.0 then 1.0 else 0.0
  else if x == 0.0 then power q p n
  else if y == 0.0 then power p q n
  else if x < 1.0 || y < 1.0 then
    let powers := x * (if p > q then log1p (-q) else Float.log p) +
      y * (if q > p then log1p (-p) else Float.log q)
    let low := min x y
    Float.exp (powers + (logGammaRatio (max x y) low - logGamma (low + 1.0)))
  else
    let exponent := stirlingError n - stirlingError x - stirlingError y -
      deviance x (n * p) - deviance y (n * q)
    Float.exp exponent * Float.sqrt (n / x / (2.0 * pi * y))

end PlateModel.Special
