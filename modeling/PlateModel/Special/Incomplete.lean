import PlateModel.Special.Gamma
import PlateModel.Special.Normal

/-!
# Incomplete gamma and beta functions

The regularized integrals that the distribution functions of the gamma and the beta family are. Each
is a series or a continued fraction, whichever converges at the argument, times the greatest term,
which is computed without loss. Near the mean of a law with large parameters, where either would
need too many terms, an expansion around the normal law takes their place.

* `gammaLower`, `gammaUpper`: the two parts of the gamma integral.
* `betaIncomplete`: the beta integral.
-/

namespace PlateModel.Special

/-- How small the last term of a sum is beside the sum. -/
def precision : Float := 1.1102230246251565e-16

/-- How many terms of a series or a fraction are taken. -/
def steps : Nat := 2000

/-- How many terms are taken where many may be needed. -/
def manySteps : Nat := 1000000

/-! ## The gamma integral -/

/-- The terms of the series of the lower part, at most so many. -/
def gammaSeries (x : Float) : Nat → Float → Float → Float → Float
  | 0, _, _, sum => sum
  | fuel + 1, r, term, sum =>
    let r := r + 1.0
    let term := term * (x / r)
    let sum := sum + term
    if term ≤ precision * sum then sum else gammaSeries x fuel r term sum

/-- Numerators and denominators of the last two approximants of a continued fraction. -/
structure Approximants where
  numerator : Float
  denominator : Float
  lastNumerator : Float
  lastDenominator : Float

/-- The continued fraction of the upper part, at most so many approximants of it. -/
def gammaFraction : Nat → Float → Float → Float → Float → Approximants → Float
  | 0, _, _, _, value, _ => value
  | fuel + 1, c, y, z, value, ⟨p, q, p', q'⟩ =>
    let c := c + 1.0
    let y := y + 1.0
    let z := z + 2.0
    let pk := p * z - p' * (y * c)
    let qk := q * z - q' * (y * c)
    let next := if qk == 0.0 then value else pk / qk
    let change := if qk == 0.0 then 1.0 else ((value - next) / next).abs
    let unit := if pk.abs > 4503599627370496.0 then 2.220446049250313e-16 else 1.0
    if change ≤ precision then next
    else gammaFraction fuel c y z next ⟨pk * unit, qk * unit, p * unit, q * unit⟩

/-- `x ^ a * exp (-x) / gamma a`. -/
def gammaScale (a x : Float) : Float :=
  if (a - x).abs > 0.4 * a.abs then
    let exponent := a * Float.log x - x - logGamma a
    if exponent < -709.782712893384 then 0.0 else Float.exp exponent
  else a * poissonWeight a x

/-- The series of the upper part for small arguments. -/
def gammaComplementSeries (a x : Float) : Nat → Float → Float → Float → Float
  | 0, _, _, sum => sum
  | fuel + 1, n, factor, sum =>
    let factor := factor * (-x / n)
    let term := factor / (a + n)
    let sum := sum + term
    if term.abs ≤ precision * sum.abs then sum
    else gammaComplementSeries a x fuel (n + 1.0) factor sum

/-- The coefficients of the correction, a row for each power of the inverse shape. -/
private def uniformRows : List (List Float) := [
  [-4.382036018453353e-09, 1.0261809784240309e-08, 6.707853543401498e-09,
    -1.7665952736826078e-07, 8.296711340953087e-07, -1.85406221071516e-06, -2.185448510679992e-06,
    3.919263178522438e-05, -0.0001787551440329218, 0.0003527336860670194, 0.0011574074074074073,
    -0.014814814814814815, 0.08333333333333333, -0.3333333333333333],
  [-1.7543241719747647e-11, 1.1951628599778148e-08, -5.752545603517705e-08,
    1.378633446915721e-07, 4.647127802807434e-09, -1.6120900894563446e-06, 7.64916091608111e-06,
    -1.8098550334489977e-05, -4.018775720164609e-07, 0.00020576131687242798,
    -0.0009902263374485596, 0.0026455026455026454, -0.003472222222222222, -0.001851851851851852],
  [6.228974084922022e-09, -1.409252991086752e-08, -2.0477098421990866e-10,
    1.4280614206064242e-07, -6.298992138380055e-07, 1.3721957309062934e-06, 3.423578734096138e-08,
    -1.2760635188618728e-05, 5.2923448829120125e-05, -0.0001073665322636516,
    2.0093878600823047e-06, 0.0007716049382716049, -0.0026813271604938273, 0.004133597883597883],
  [2.3928620439808118e-12, -1.9111168485973655e-08, 8.099464905388083e-08,
    -1.6958404091930278e-07, -2.7861080291528143e-11, 1.4230900732435883e-06,
    -5.6749528269915965e-06, 1.1082654115347302e-05, -2.396505113867297e-07,
    -7.561801671883977e-05, 0.00026772063206283885, -0.0004691894943952557, 0.00022947209362139917,
    0.0006494341563786008]]

/-- Whether a point is so near to the mean of a law with a large shape that the law is nearly
normal. -/
def isNearMean (a x : Float) : Bool :=
  a > 200.0 && (x - a).abs / a < 4.5 / Float.sqrt a

/-- A part of the gamma integral near the mean: the normal law and a correction in powers of the
inverse shape, whose coefficients are series in the distance from the mean. -/
def gammaNearMean (lower : Bool) (a x : Float) : Float :=
  let half := -(logExcess ((x - a) / a))
  let η := if x < a then -Float.sqrt (2.0 * half) else Float.sqrt (2.0 * half)
  let coefficients := uniformRows.map (polynomial · η)
  let correction := Float.exp (-0.5 * a * η * η) * polynomial coefficients.reverse (1.0 / a) /
    Float.sqrt (2.0 * pi * a)
  let z := η * Float.sqrt a
  if lower then normalCdf z - correction else normalCdf (-z) + correction

/-- The lower part as its series. -/
def gammaBySeries (a x : Float) : Float :=
  let scale := gammaScale a x
  if scale == 0.0 then 0.0 else gammaSeries x steps a 1.0 1.0 * scale / a

/-- The upper part as its continued fraction. -/
def gammaByFraction (a x : Float) : Float :=
  let scale := gammaScale a x
  let z := x + (1.0 - a) + 1.0
  let start : Approximants := ⟨x + 1.0, z * x, 1.0, x⟩
  if scale == 0.0 then 0.0
  else gammaFraction steps 0.0 (1.0 - a) z ((x + 1.0) / (z * x)) start * scale

/-- The upper part for small arguments. -/
def gammaBySmallSeries (a x : Float) : Float :=
  let exponent := a * Float.log x
  let sum := gammaComplementSeries a x steps 1.0 1.0 0.0
  (-expm1 (exponent - logGamma (1.0 + a))) - Float.exp (exponent - logGamma a) * sum

/-- A part of the gamma integral where it is known without a series, if it is. -/
def gammaLimit? (a x : Float) : Option Float :=
  if a.isNaN || x.isNaN || a < 0.0 || x < 0.0 then some Binary64.nan
  else if a == 0.0 then some (if x > 0.0 then 1.0 else Binary64.nan)
  else if x == 0.0 then some 0.0
  else if a.isInf then some (if x.isInf then Binary64.nan else 0.0)
  else if x.isInf then some 1.0
  else none

/-- The regularized upper incomplete gamma function. -/
def gammaUpper (a x : Float) : Float :=
  match gammaLimit? a x with
  | some p => 1.0 - p
  | none =>
    if isNearMean a x then gammaNearMean false a x
    else if x > 1.1 then if x < a then 1.0 - gammaBySeries a x else gammaByFraction a x
    else if x ≤ 0.5 then
      if -0.4 / Float.log x < a then 1.0 - gammaBySeries a x else gammaBySmallSeries a x
    else if x * 1.1 < a then 1.0 - gammaBySeries a x
    else gammaBySmallSeries a x

/-- The regularized lower incomplete gamma function. -/
def gammaLower (a x : Float) : Float :=
  match gammaLimit? a x with
  | some p => p
  | none =>
    if isNearMean a x then gammaNearMean true a x
    else if x > 1.0 && x > a then 1.0 - gammaUpper a x
    else gammaBySeries a x

/-! ## The beta integral -/

/-- The continued fraction of the incomplete beta function, given `1 - x` as well. -/
def betaFraction (a b x y : Float) : Nat → Float → Float → Float → Float → Float
  | 0, _, _, _, f => f
  | fuel + 1, m, c, d, f =>
    let guard (v : Float) : Float := if v == 0.0 then 1.0e-300 else v
    let s := a + 2.0 * m - 1.0
    let numerator := m * (a + m - 1.0) / s * ((a + b + m - 1.0) / s) * (b - m) * x * x
    let term := betaTerm a b x y m
    let d := 1.0 / guard (term + numerator * d)
    let c := guard (term + numerator / c)
    let delta := c * d
    let f := f * delta
    if (delta - 1.0).abs ≤ 2.0 * precision || delta.isNaN then f
    else betaFraction a b x y fuel (m + 1.0) c d f
where
  /-- A partial denominator. -/
  betaTerm (a b x y m : Float) : Float :=
    m + (if m == 0.0 then 0.0 else m * (b - m) * x / (a + 2.0 * m - 1.0)) +
      (a + m) * (a * y - b * x + 1.0 + m * (2.0 - x)) / (a + 2.0 * m + 1.0)

/-- The regularized incomplete beta function at `x`, given `1 - x` as well, where the fraction
converges. -/
def betaNear (a b x y : Float) : Float :=
  let scale := binomialWeight a b x y * (a * (b / (a + b)))
  if scale == 0.0 then 0.0
  else
    let first := betaFraction.betaTerm a b x y 0.0
    scale / betaFraction a b x y manySteps 1.0 first 0.0 first

/-- The incomplete beta function of very large parameters: the normal law and a correction. -/
def betaNearMean (a b x y : Float) : Float :=
  let n := a + b
  let p := a / n
  let q := b / n
  let d := (x * b - y * a) / n
  let half := -(p * logExcess (d / p) + q * logExcess (-d / q))
  let η := if d < 0.0 then -Float.sqrt (2.0 * half) else Float.sqrt (2.0 * half)
  let spread := Float.sqrt (p * q)
  let skewness :=
    if (d / spread).abs < 1.0e-9 then (q - p) / (3.0 * spread) else 1.0 / η - spread / d
  normalCdf (η * Float.sqrt n) +
    Float.exp (-(n * half)) / Float.sqrt (2.0 * pi * n) * skewness

/-- The regularized incomplete beta function at `x`, given `1 - x` as well. -/
def betaIncomplete (a b x y : Float) : Float :=
  let beforeMean := if a < b then a - (a + b) * x ≥ 0.0 else (a + b) * y - b ≥ 0.0
  if x ≤ 0.0 then 0.0
  else if y ≤ 0.0 then 1.0
  else if a > 1.0e10 && b > 1.0e10 && a < 1.0e100 && b < 1.0e100 then betaNearMean a b x y
  else if beforeMean then betaNear a b x y
  else 1.0 - betaNear b a y x

end PlateModel.Special
