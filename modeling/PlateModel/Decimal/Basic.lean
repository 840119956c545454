import PlateModel.Binary64

/-!
# Decimal numerals

`Decimal d e` stands for `d · 10 ^ e`. A positive dyadic number `m · 2 ^ q` is turned into a decimal
by rounding it to a grid `10 ^ k` (`onGrid`); how many digits to keep is decided by `shortest` and
by the module `Decimal.Significant`. `Style` holds the choices of layout: between which exponents a
numeral is positional and whether an integral value keeps its point.
-/

namespace PlateModel

/-- `digits · 10 ^ exponent`. -/
structure Decimal where
  digits : Nat
  exponent : Int
  deriving Repr, DecidableEq

namespace Decimal

/-- The same number with no zero at the end of its digits. -/
def trim (d : Decimal) : Decimal :=
  if d.digits ≠ 0 ∧ d.digits % 10 = 0 then trim ⟨d.digits / 10, d.exponent + 1⟩ else d
termination_by d.digits
decreasing_by grind

/-- The decimal exponent of the first digit of `m · 2 ^ q`, that is the greatest `k` with
`10 ^ k ≤ m · 2 ^ q`, for a positive `m`. The estimate from the binary logarithm is at most one too
small. -/
def firstExponent (m : Nat) (q : Int) : Int :=
  let k := Int.fdiv (((m.log2 : Int) + q) * 30103) 100000 - 1
  let reaches (k : Int) : Bool :=
    tenPow k.toNat * twoPow (-q).toNat ≤ m * twoPow q.toNat * tenPow (-k).toNat
  if reaches (k + 2) then k + 2 else if reaches (k + 1) then k + 1 else k

/-- Numerator and denominator of `m · 2 ^ q / 10 ^ k`. -/
def scaled (m : Nat) (q k : Int) : Nat × Nat :=
  (m * twoPow q.toNat * tenPow (-k).toNat, twoPow (-q).toNat * tenPow k.toNat)

/-- How a numeral is laid out. -/
structure Style where
  /-- The least exponent of the first digit that is written positionally. -/
  least : Int
  /-- The first exponent above it that is not. -/
  bound : Int
  /-- Whether an integral positional numeral ends in `.0`. -/
  keepsPoint : Bool

def zeros (n : Nat) : String := String.ofList (List.replicate n '0')

def exponentText (x : Int) : String :=
  let n := Nat.repr x.natAbs
  (if x < 0 then "e-" else "e+") ++ (if n.length < 2 then "0" ++ n else n)

/-- The text of a decimal without zeros at the end of its digits. -/
def layout (style : Style) (d : Decimal) : String :=
  let text := Nat.repr d.digits
  let cs := text.toList
  let x : Int := d.exponent + cs.length - 1
  if d.digits = 0 then (if style.keepsPoint then "0.0" else "0")
  else if style.least ≤ x ∧ x < style.bound then
    if 0 ≤ d.exponent then
      text ++ zeros d.exponent.toNat ++ (if style.keepsPoint then ".0" else "")
    else if 0 ≤ x then
      String.ofList (cs.take (x.toNat + 1)) ++ "." ++ String.ofList (cs.drop (x.toNat + 1))
    else "0." ++ zeros (-x - 1).toNat ++ text
  else
    match cs with
    | c :: [] => String.ofList [c] ++ exponentText x
    | c :: rest => String.ofList (c :: '.' :: rest) ++ exponentText x
    | [] => exponentText x

/-- The text of a float: its sign, and its magnitude as the given function of a positive dyadic
number writes it in the given style. -/
def textOf (style : Style) (digitsOf : Nat → Int → Decimal) (x : Float) : String :=
  match Binary64.parts x with
  | .notANumber => "nan"
  | .infinite negative => if negative then "-inf" else "inf"
  | .finite negative m q =>
    (if negative then "-" else "") ++
      layout style (if m = 0 then ⟨0, 0⟩ else trim (digitsOf m q))

/-! ## The shortest numeral that reads back

Of all decimals that round to a given float, `shortest` takes the one with the fewest digits; of
those with equally few digits, the one nearest to the float. -/

/-- Whether the decimal `d · 10 ^ k` rounds to the float `m · 2 ^ q`: it lies between the midpoints
to the two neighbours, an even significand owning both midpoints. Below a power of two the neighbour
is half as far. -/
def roundsTo (m : Nat) (q : Int) (d : Nat) (k : Int) : Bool :=
  -- everything is compared in units of `2 ^ (q - 2)`
  let (n, den) := scaled d 0 (-k)
  let value := n * twoPow (2 - q).toNat
  let unit := den * twoPow (q - 2).toNat
  let below := if m = twoPow 52 ∧ -1074 < q then 1 else 2
  let lower := (4 * m - below) * unit
  let upper := (4 * m + 2) * unit
  if m % 2 = 0 then lower ≤ value && value ≤ upper else lower < value && value < upper

/-- The decimal with `n` digits that is nearest to `m · 2 ^ q`, and a tie goes to the even one. -/
def nearest (m : Nat) (q : Int) (n : Nat) : Decimal :=
  let k := firstExponent m q - (n - 1)
  let (num, den) := scaled m q k
  ⟨Binary64.roundQuotient num den, k⟩

/-- Tries ever more digits; seventeen always read back. -/
def shortestFrom (m : Nat) (q : Int) (n : Nat) : Nat → Decimal
  | 0 => nearest m q n
  | more + 1 =>
    let d := nearest m q n
    if roundsTo m q d.digits d.exponent then d
    else
      -- the neighbour on the other side may be inside where the interval is lopsided
      let up : Decimal := ⟨d.digits + 1, d.exponent⟩
      if roundsTo m q up.digits up.exponent then up
      else shortestFrom m q (n + 1) more

/-- The shortest decimal that rounds to `m · 2 ^ q`, for a positive `m`. -/
def shortest (m : Nat) (q : Int) : Decimal := shortestFrom m q 1 16

/-- Positional from `1e-4` up to below `1e16`, and an integral value ends in `.0`. -/
def sourceStyle : Style := ⟨-4, 16, true⟩

/-- The text of a float in model text and in messages. -/
def ofFloat (x : Float) : String := textOf sourceStyle shortest x

/-- The text of an integer. -/
def ofInt (i : Int) : String :=
  if i < 0 then "-" ++ Nat.repr i.natAbs else Nat.repr i.natAbs

end Decimal

end PlateModel
