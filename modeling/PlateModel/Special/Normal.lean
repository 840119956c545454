import PlateModel.Number.Complex
import PlateModel.Special.Elementary

/-!
# The normal distribution function and its inverse

The distribution function comes from rational approximations of the error function on three
intervals, the inverse from approximations in the centre and in two parts of the tail. The error
function of complex numbers is that of its power series, which converges everywhere, though for
large arguments only after many terms.
-/

namespace PlateModel.Special

private def erfcNumerator : List Float :=
  [2.461969814735305e-10, 0.5641895648310689, 7.463210564422699,
    48.63719709856814, 196.5208329560771, 526.4451949954773,
    934.5285271719576, 1027.5518868951572, 557.5353353693994]

private def erfcDenominator : List Float :=
  [13.228195115474499, 86.70721408859897, 354.9377788878199,
    975.7085017432055, 1823.9091668790973, 2246.3376081871097,
    1656.6630919416134, 557.5353408177277]

private def erfcTailNumerator : List Float :=
  [0.5641895835477551, 1.275366707599781, 5.019050422511805,
    6.160210979930536, 7.4097426995044895, 2.9788666537210022]

private def erfcTailDenominator : List Float :=
  [2.2605286322011726, 9.396035249380015, 12.048953980809666,
    17.08144507475659, 9.608968090632859, 3.369076451000815]

private def erfNumerator : List Float :=
  [9.604973739870516, 90.02601972038427, 2232.005345946843,
    7003.325141128051, 55592.30130103949]

private def erfDenominator : List Float :=
  [33.56171416475031, 521.3579497801527, 4594.323829709801,
    22629.000061389095, 49267.39426086359]

/-- The error function of a number of at most one in magnitude. -/
def erfCentre (x : Float) : Float :=
  x * polynomial erfNumerator (x * x) / monic erfDenominator (x * x)

/-- The complement of the error function of a number from zero on. -/
def erfcUpper (x : Float) : Float :=
  if x < 1.0 then 1.0 - erfCentre x
  else if x * x > 709.782712893384 then 0.0
  else
    let z := Float.exp (-(x * x))
    if x < 8.0 then z * polynomial erfcNumerator x / monic erfcDenominator x
    else z * polynomial erfcTailNumerator x / monic erfcTailDenominator x

/-- The standard normal distribution function. -/
def normalCdf (a : Float) : Float :=
  if a.isNaN then a
  else
    let x := a * 0.7071067811865476
    if x.abs < 1.0 then 0.5 + 0.5 * erfCentre x
    else
      let y := 0.5 * erfcUpper x.abs
      if x > 0.0 then 1.0 - y else y

private def centreNumerator : List Float :=
  [-59.96335010141079, 98.00107541859997, -56.67628574690703,
    13.931260938727968, -1.2391658386738125]

private def centreDenominator : List Float :=
  [1.9544885833814176, 4.676279128988815, 86.36024213908905,
    -225.46268785411937, 200.26021238006066, -82.03722561683334,
    15.90562251262117, -1.1833162112133]

private def tailNumerator : List Float :=
  [4.0554489230596245, 31.525109459989388, 57.16281922464213,
    44.08050738932008, 14.684956192885803, 2.1866330685079025,
    -0.1402560791713545, -0.03504246268278482, -0.0008574567851546854]

private def tailDenominator : List Float :=
  [15.779988325646675, 45.39076351288792, 41.3172038254672,
    15.04253856929075, 2.504649462083094, -0.14218292285478779,
    -0.03808064076915783, -0.0009332594808954574]

private def farNumerator : List Float :=
  [3.2377489177694603, 6.915228890689842, 3.9388102529247444,
    1.3330346081580755, 0.20148538954917908, 0.012371663481782003,
    0.00030158155350823543, 2.6580697468673755e-6, 6.239745391849833e-9]

private def farDenominator : List Float :=
  [6.02427039364742, 3.6798356385616087, 1.3770209948908132,
    0.21623699359449663, 0.013420400608854318, 0.00032801446468212774,
    2.8924786474538068e-6, 6.790194080099813e-9]

/-- The inverse of the standard normal distribution function. -/
def normalQuantile (p : Float) : Float :=
  if p == 0.0 then Binary64.negInfinity
  else if p == 1.0 then Binary64.infinity
  else if !(0.0 < p && p < 1.0) then Binary64.nan
  else
    let low := 0.1353352832366127
    let upper := p > 1.0 - low
    let y := if upper then 1.0 - p else p
    if y > low then
      let y := y - 0.5
      let y2 := y * y
      (y + y * (y2 * polynomial centreNumerator y2 / monic centreDenominator y2)) *
        2.5066282746310007
    else
      let x := Float.sqrt (-2.0 * Float.log y)
      let z := 1.0 / x
      let correction :=
        if x < 8.0 then z * polynomial tailNumerator z / monic tailDenominator z
        else z * polynomial farNumerator z / monic farDenominator z
      let r := x - Float.log x / x - correction
      if upper then r else -r

end PlateModel.Special

namespace PlateModel.Complex

/-! ## Complex numbers -/

/-- Adds the terms `z * (-z * z) ^ n / n! / (2 n + 1)` of the series of the error function. -/
def errorSeries (square : Complex) : Nat → Float → Complex → Complex → Complex
  | 0, _, _, sum => sum
  | fuel + 1, n, power, sum =>
    let power := (power.mul square).quotient ⟨-n, 0.0⟩
    errorSeries square fuel (n + 1.0) power (sum.add (power.quotient ⟨2.0 * n + 1.0, 0.0⟩))

/-- The error function. -/
def errorFunction (z : Complex) : Complex :=
  (errorSeries (z.mul z) 400 1.0 z z).mul ⟨1.1283791670955126, 0.0⟩

/-- The standard normal distribution function; on the line it is the real one. -/
def normalCdf (z : Complex) : Complex :=
  if z.im == 0.0 then ⟨Special.normalCdf z.re, 0.0⟩
  else
    let root := 0.7071067811865476
    let e := errorFunction ⟨z.re * root, z.im * root⟩
    ⟨0.5 + 0.5 * e.re, 0.5 * e.im⟩

end PlateModel.Complex
