import PlateModel.Data.Datum
import PlateModel.Diagnostic.Fault

/-!
# Given data in the place of expressions

A number stands for itself wherever an expression or a reference is expected; no other datum stands
for anything.
-/

namespace PlateModel.Datum

/-- A datum that is refused with a text of it. -/
private def refused (shown : Option String) (p : String → Problem) : Except Fault Number :=
  match shown with
  | some s => .error (.model (p s) none)
  | none => .error (.evaluation .unsuitableValue)

/-- What a datum comes to in the place of an expression. -/
def evaluate : Datum → Except Fault Number
  | number n => .ok n
  | d => refused d.shown? .notEvaluable

/-- What a datum stands for in the place of a reference. -/
def symbolic : Datum → Except Fault Number
  | number n => .ok n
  | text codes => refused (some (Text.ofCodePoints codes)) .noSymbol
  | d => refused d.shown? .noSymbol

end PlateModel.Datum
