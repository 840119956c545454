import PlateModel.Power

/-!
# Binary64 numbers as exact dyadic rationals

Every finite `Float` is `± m · 2 ^ e` for a natural `m` and an integer `e`. `parts` reads the three
fields off the bit pattern and `ofRatio` goes the other way: it rounds an exact quotient of naturals
to the nearest `Float`, ties to the even significand. Everything that has to be exact about floats
(comparison with integers, printing, reading, division of big integers) goes through these two.

* `ofRatio neg n d`: the `Float` nearest to `± n / d`, infinite beyond the largest finite one.
* `ofInt i`: the `Float` nearest to the integer `i`.
* `compareInt i x`: how the integer `i` compares with the exact value of `x`.
-/

namespace PlateModel.Binary64

/-- What a bit pattern stands for. -/
inductive Parts
  | notANumber
  | infinite (negative : Bool)
  /-- `± significand · 2 ^ exponent`. -/
  | finite (negative : Bool) (significand : Nat) (exponent : Int)
  deriving Repr, DecidableEq

/-- Sign, significand and exponent of a float. -/
def parts (x : Float) : Parts :=
  let bits : Nat := x.toBits.toNat
  let negative := bits / twoPow 63 == 1
  let exponent : Nat := bits / twoPow 52 % 2048
  let fraction : Nat := bits % twoPow 52
  if exponent = 2047 then
    if fraction = 0 then .infinite negative else .notANumber
  else if exponent = 0 then .finite negative fraction (-1074)
  else .finite negative (fraction + twoPow 52) (exponent - 1075)

def nan : Float := Float.ofBits 0x7ff8000000000000

def infinity : Float := Float.ofBits 0x7ff0000000000000

def negInfinity : Float := Float.ofBits 0xfff0000000000000

/-- The float with the given sign and the given lower 63 bits. -/
def ofSignBits (negative : Bool) (bits : Nat) : Float :=
  Float.ofBits (UInt64.ofNat (if negative then bits + twoPow 63 else bits))

/-- `n / d` rounded to the nearest natural, a half to the even neighbour. -/
def roundQuotient (n d : Nat) : Nat :=
  let q := n / d
  let r := n % d
  if 2 * r < d then q
  else if d < 2 * r then q + 1
  else if q % 2 = 0 then q else q + 1

/-- The greatest `k` with `2 ^ k ≤ n / d`, for positive `n` and `d`. -/
def floorLog2 (n d : Nat) : Int :=
  let k : Int := (n.log2 : Int) - d.log2
  if d * twoPow k.toNat ≤ n * twoPow (-k).toNat then k else k - 1

/-- The float nearest to `± n / d`; a tie goes to the even significand, and what rounds beyond the
largest finite float is infinite. -/
def ofRatio (negative : Bool) (n d : Nat) : Float :=
  if n = 0 then ofSignBits negative 0
  else
    let e : Int := max (floorLog2 n d - 52) (-1074)
    let q := roundQuotient (n * twoPow (-e).toNat) (d * twoPow e.toNat)
    let bits := if q < twoPow 52 then q else (e + 1074).toNat * twoPow 52 + q
    ofSignBits negative (min bits (2047 * twoPow 52))

/-- The float nearest to an integer. -/
def ofInt (i : Int) : Float :=
  if -(twoPow 53) ≤ i ∧ i ≤ twoPow 53 then Float.ofInt i else ofRatio (i < 0) i.natAbs 1

/-- An integer that a float has as its exact value, if it has one. -/
def toInt? (x : Float) : Option Int :=
  match parts x with
  | .finite negative m e =>
    let scaled : Option Nat :=
      if 0 ≤ e then some (m * twoPow e.toNat)
      else if m % twoPow (-e).toNat = 0 then some (m / twoPow (-e).toNat) else none
    scaled.map fun k => if negative then -(k : Int) else k
  | _ => none

/-- The integer part of a finite float, toward zero. -/
def truncate? (x : Float) : Option Int :=
  match parts x with
  | .finite negative m e =>
    let k := if 0 ≤ e then m * twoPow e.toNat else m / twoPow (-e).toNat
    some (if negative then -(k : Int) else k)
  | _ => none

/-- Whether the value of a float is an integer. -/
def isIntegral (x : Float) : Bool := (toInt? x).isSome

/-- How an integer compares with the exact value of a float; `none` if that is not a number. -/
def compareInt (i : Int) (x : Float) : Option Ordering :=
  match parts x with
  | .notANumber => none
  | .infinite negative => some (if negative then .gt else .lt)
  | .finite negative m e =>
    let v : Int := if negative then -(m : Int) else m
    some (compare (i * twoPow (-e).toNat) (v * twoPow e.toNat))

/-- How two floats compare; `none` if one is not a number. The two zeros are equal. -/
def compareFloat (x y : Float) : Option Ordering :=
  if x < y then some .lt else if y < x then some .gt else if x == y then some .eq else none

/-! ## Rounding

To the nearest integer, toward zero, and to the floats of 32 and of 16 bits. -/

/-- The integer nearest to a float, a half to the even neighbour. -/
def nearestInteger (x : Float) : Float :=
  if x.abs ≥ 4503599627370496.0 then x
  else
    let r := Float.round x
    if (r - x).abs == 0.5 then 2.0 * Float.round (x / 2.0) else r

/-- A float without its fraction. -/
def truncate (x : Float) : Float :=
  if x < 0.0 || (x == 0.0 && 1.0 / x < 0.0) then -Float.floor (-x) else Float.floor x

/-- A float rounded to a significand of so many bits and to a multiple of `2 ^ least`. -/
def shorten (bits : Nat) (least : Int) (x : Float) : Float :=
  match Binary64.parts x with
  | .finite negative m e =>
    let surplus := max ((m.log2 : Int) + 1 - bits) (least - e)
    if m = 0 || surplus ≤ 0 then x
    else
      let q := Binary64.roundQuotient m (twoPow surplus.toNat)
      let e := e + surplus
      Binary64.ofRatio negative (q * twoPow e.toNat) (twoPow (-e).toNat)
  | _ => x

/-- The nearest float of 32 bits. -/
def toSingle (x : Float) : Float :=
  let y := shorten 24 (-149) x
  if y.abs ≥ 3.402823669209385e38 then y * infinity else y

/-- The nearest float of 16 bits. -/
def toHalf (x : Float) : Float :=
  let y := shorten 11 (-24) x
  if y.abs ≥ 65536.0 then y * infinity else y

end PlateModel.Binary64
