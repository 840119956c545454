import PlateModel.Binary64

/-!
# Elementary functions near their zeros

`log1p` and `expm1` keep their relative accuracy where `log (1 + x)` and `exp x - 1` lose it, and
`logExcess` does where `log (1 + x) - x` does.
`xlogy` and `xlog1py` are products that are zero when their first factor is, whatever the logarithm
is.
-/

namespace PlateModel.Special

def pi : Float := 3.141592653589793

/-- The value of a polynomial whose coefficients are listed from the highest power on. -/
def polynomial (coefficients : List Float) (x : Float) : Float :=
  match coefficients with
  | [] => 0.0
  | c :: rest => rest.foldl (fun acc a => acc * x + a) c

/-- A polynomial with leading coefficient one, the others listed from the second highest power on.
-/
def monic (coefficients : List Float) (x : Float) : Float := polynomial (1.0 :: coefficients) x

/-- The logarithm of `1 + x`. -/
def log1p (x : Float) : Float :=
  let u := 1.0 + x
  if u == 1.0 then x
  else if u.isInf || u == 0.0 then Float.log u
  else Float.log u * x / (u - 1.0)

/-- The sum of `y ^ n / (2 n + 3)` for the first natural numbers. -/
def oddReciprocals (y : Float) : Float :=
  polynomial ((List.range 24).reverse.map fun n => 1.0 / Float.ofNat (2 * n + 3)) y

/-- The logarithm of `1 + x` less `x`. Near zero it is a series in `x / (2 + x)`. -/
def logExcess (x : Float) : Float :=
  if x.abs < 0.4 then
    let r := x / (2.0 + x)
    r * (2.0 * (r * r) * oddReciprocals (r * r) - x)
  else log1p x - x

/-- The exponential of `x` less one. -/
def expm1 (x : Float) : Float :=
  let u := Float.exp x
  if u == 1.0 then x
  else if u - 1.0 == -1.0 then -1.0
  else if u.isInf then u
  else (u - 1.0) * x / Float.log u

/-- `x * log y`, and zero where `x` is. -/
def xlogy (x y : Float) : Float := if x == 0.0 && !y.isNaN then 0.0 else x * Float.log y

/-- `x * log (1 + y)`, and zero where `x` is. -/
def xlog1py (x y : Float) : Float := if x == 0.0 && !y.isNaN then 0.0 else x * log1p y

/-- The logistic function. -/
def logistic (x : Float) : Float := 1.0 / (1.0 + Float.exp (-x))

/-- The logarithm of the odds of a probability. -/
def logit (x : Float) : Float :=
  if x < 0.0 || x > 1.0 then Binary64.nan
  else
    let s := 2.0 * (x - 0.5)
    -- near one half the quotient is one plus something small
    if x < 0.3 || x > 0.65 then Float.log (x / (1.0 - x)) else log1p s - log1p (-s)

end PlateModel.Special
