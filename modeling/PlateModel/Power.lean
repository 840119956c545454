/-!
# Powers of naturals

The powers of two and ten that float formats and decimals are made of.
-/

namespace PlateModel

/-- `b ^ n`. -/
abbrev power (b n : Nat) : Nat := Nat.pow b n

/-- `2 ^ n`. -/
abbrev twoPow (n : Nat) : Nat := Nat.pow 2 n

/-- `10 ^ n`. -/
abbrev tenPow (n : Nat) : Nat := Nat.pow 10 n

end PlateModel
