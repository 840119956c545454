import PlateModel.Number.Basic
import PlateModel.Failure

/-!
# Arithmetic of constants

Integers are exact and never wrap. An operation between an integer and a float is done in floats.
Division is always true division: the quotient of two integers is the float nearest to it. Division
by zero and results too large for a float are failures, not infinities; a negative number raised to
a fractional power is a complex number (`Complex`).
-/

namespace PlateModel

/-- A complex number in rectangular form. -/
structure Complex where
  re : Float
  im : Float

namespace Complex

def zero : Complex := ⟨0.0, 0.0⟩

def one : Complex := ⟨1.0, 0.0⟩

/-- The number with the given magnitude and angle. -/
def ofPolar (r θ : Float) : Complex := ⟨r * Float.cos θ, r * Float.sin θ⟩

/-- A power that is not infinite. -/
def finite (z : Complex) : Except Failure Complex :=
  if z.re.isInf || z.im.isInf then .error .overflow else .ok z

def add (a b : Complex) : Complex := ⟨a.re + b.re, a.im + b.im⟩

def sub (a b : Complex) : Complex := ⟨a.re - b.re, a.im - b.im⟩

def mul (a b : Complex) : Complex := ⟨a.re * b.re - a.im * b.im, a.re * b.im + a.im * b.re⟩

def neg (a : Complex) : Complex := ⟨-a.re, -a.im⟩

def isZero (a : Complex) : Bool := a.re == 0.0 && a.im == 0.0

def isNaN (a : Complex) : Bool := a.re.isNaN || a.im.isNaN

def equal (a b : Complex) : Bool := a.re == b.re && a.im == b.im

/-- The quotient of two numbers; by zero it is infinite or not a number. -/
def quotient (a b : Complex) : Complex :=
  if b.im.abs ≤ b.re.abs then
    let r := b.im / b.re
    let d := b.re + b.im * r
    ⟨(a.re + a.im * r) / d, (a.im - a.re * r) / d⟩
  else
    let r := b.re / b.im
    let d := b.re * r + b.im
    ⟨(a.re * r + a.im) / d, (a.im * r - a.re) / d⟩

def div (a b : Complex) : Except Failure Complex :=
  if b.isZero then .error .divisionByZero else .ok (a.quotient b)

/-- A natural power by repeated squaring. -/
def powNat (a acc : Complex) (n : Nat) : Complex :=
  if n = 0 then acc
  else powNat (a.mul a) (if n % 2 = 1 then acc.mul a else acc) (n / 2)
termination_by n

/-- A power by magnitudes and angles; of zero there are only powers with a positive real part. -/
def polarPower (a b : Complex) : Except Failure Complex :=
  if b.isZero then .ok one
  else if a.isZero then
    if b.im == 0.0 && !(b.re < 0.0) then .ok zero else .error .divisionByZero
  else
    let v := Float.sqrt (a.re * a.re + a.im * a.im)
    let angle := Float.atan2 a.im a.re
    if b.im == 0.0 then .ok (ofPolar (Float.pow v b.re) (angle * b.re))
    else
      .ok (ofPolar (Float.pow v b.re * Float.exp (-angle * b.im))
        (angle * b.re + b.im * Float.log v))

/-- A power. Small integral exponents are powers by multiplication; no power is infinite. -/
def pow (a b : Complex) : Except Failure Complex :=
  let exponent := if b.im == 0.0 && b.re.abs ≤ 100.0 then Binary64.toInt? b.re else none
  match exponent with
  | some (.ofNat n) => (a.powNat one n).finite
  | some (.negSucc n) => do (← one.div (a.powNat one (n + 1))).finite
  | none => do (← a.polarPower b).finite

end Complex

namespace Number

/-- Applies an exact operation to integral kinds and a float operation otherwise. -/
def arith (exact : Int → Int → Int) (approximate : Float → Float → Float) (a b : Number) :
    Except Failure Number :=
  match a.integer?, b.integer? with
  | some i, some j => .ok (int (exact i j))
  | _, _ =>
    match a.toFloat?, b.toFloat? with
    | some x, some y => .ok (real (approximate x y))
    | _, _ => .error .overflow

def add : Number → Number → Except Failure Number := arith (· + ·) (· + ·)

def sub : Number → Number → Except Failure Number := arith (· - ·) (· - ·)

def mul : Number → Number → Except Failure Number := arith (· * ·) (· * ·)

/-- The float nearest to the quotient of two integers. -/
def divideInt (i j : Int) : Except Failure Number :=
  if j = 0 then .error .divisionByZero
  else
    -- zero over a negative divisor is a negative zero
    let x := Binary64.ofRatio ((i < 0) != (j < 0)) i.natAbs j.natAbs
    if x.isInf then .error .overflow else .ok (real x)

def div (a b : Number) : Except Failure Number :=
  match a.integer?, b.integer? with
  | some i, some j => divideInt i j
  | _, _ =>
    match a.toFloat?, b.toFloat? with
    | some x, some y => if y == 0.0 then .error .divisionByZero else .ok (real (x / y))
    | _, _ => .error .overflow

/-- `x` to the power of `y` in floats: a zero base has no negative power, a negative base no
fractional one except among complex numbers, and finite operands no infinite result. -/
def powFloat (x y : Float) : Except Failure (Number ⊕ Complex) :=
  let finite := x.isFinite && y.isFinite
  if x == 0.0 && y < 0.0 && y.isFinite then .error .divisionByZero
  else if finite && x < 0.0 && !Binary64.isIntegral y then
    (Complex.ofPolar (Float.pow (-x) y) (3.141592653589793 * y)).finite.map .inr
  else
    let r := Float.pow x y
    if finite && r.isInf then .error .overflow else .ok (.inl (real r))

/-- A natural power of an integer. Those of zero and of the units are known for any exponent. -/
def intPower (i : Int) (n : Nat) : Int :=
  if i = 0 then if n = 0 then 1 else 0
  else if i = 1 then 1
  else if i = -1 then if n % 2 = 0 then 1 else -1
  else Int.pow i n

/-- A power of two numbers; a natural power of an integer is exact. -/
def pow (a b : Number) : Except Failure (Number ⊕ Complex) :=
  match a.integer?, b.integer? with
  | some i, some (.ofNat n) => .ok (.inl (int (intPower i n)))
  | _, _ =>
    match a.toFloat?, b.toFloat? with
    | some x, some y => powFloat x y
    | _, _ => .error .overflow

def neg : Number → Number
  | int i => int (-i)
  | real x => real (-x)
  | truth b => int (if b then -1 else 0)

/-- The unary plus: only truth values change, to integers. -/
def pos : Number → Number
  | truth b => int (if b then 1 else 0)
  | n => n

end Number

/-- A number as a complex number; an integer may be too large. -/
def Complex.ofNumber (n : Number) : Except Failure Complex :=
  match n.toFloat? with
  | some x => .ok ⟨x, 0.0⟩
  | none => .error .overflow

end PlateModel
