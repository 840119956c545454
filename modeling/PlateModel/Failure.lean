/-!
# Why an evaluation has no value

The ways in which applying an operator, a function or a distribution to values can fail.
-/

namespace PlateModel

/-- The kind of a failed evaluation. -/
inductive Failure
  | divisionByZero
  /-- A result or an operand is too large for the numbers it is computed in. -/
  | overflow
  /-- The operands are of the right kinds, but there is no result for their values. -/
  | unsuitableValue
  /-- No result for operands of these kinds, or for so many operands. -/
  | unsuitableKind
  /-- A name has no value. -/
  | unboundName
  /-- A value has not what the operation asks it for, such as a density. -/
  | lacksFeature
  /-- A position beyond the end of a list. -/
  | outOfBounds
  deriving Repr, DecidableEq, Inhabited

/-- Failures that leave a constant expression as it is written instead of making it an error. -/
def Failure.isNumerical : Failure → Bool
  | .divisionByZero | .overflow | .unsuitableValue | .unsuitableKind => true
  | .unboundName | .lacksFeature | .outOfBounds => false

end PlateModel
