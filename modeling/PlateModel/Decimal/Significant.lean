import PlateModel.Decimal.Basic

/-!
# Numerals with a fixed number of significant digits

`significant n m q` is the decimal with at most `n` digits nearest to the exact value of the float
`m · 2 ^ q`; an exact tie goes to the even digit. Zeros at the end are not written, and the numeral
is positional as long as its first digit stands between `1e-4` and the last digit kept.
-/

namespace PlateModel.Decimal

/-- The value `m · 2 ^ q` rounded to `n` digits. -/
def significant (n m : Nat) (q : Int) : Decimal :=
  let k := firstExponent m q - (n - 1)
  let (num, den) := scaled m q k
  ⟨Binary64.roundQuotient num den, k⟩

/-- The text of a float with at most `n` significant digits. -/
def general (n : Nat) (x : Float) : String := textOf ⟨-4, n, false⟩ (significant n) x

end PlateModel.Decimal
