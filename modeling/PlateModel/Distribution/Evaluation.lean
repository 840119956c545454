import PlateModel.Distribution.Parameters
import PlateModel.Distribution.Standard

/-!
# Functions of distributions

The distribution function, the density and its logarithm at a point, or at every cell of an array.
Outside the support the density is zero and its logarithm negative infinity; nothing is a number
where the parameters are not in their domain or the point is not a number. The formula of the family
is evaluated only at the points that are left.

* `LawFunction.evaluate`: a function of a distribution at a value.
-/

namespace PlateModel

/-- The functions of a distribution that a model may call. -/
inductive LawFunction
  | cdf
  | density
  | logDensity
  deriving Repr, DecidableEq

namespace LawFunction

open Formula

/-- A function of the standard law. -/
def standard : LawFunction → Family → List Formula → Formula → Formula
  | cdf, f, ps, x => f.cdf ps x
  | density, f, ps, x => f.density ps x
  | logDensity, f, ps, x => f.logDensity ps x

/-- A function of a stretched law at a point of the standard law. -/
def stretched (g : LawFunction) (f : Family) (ps : List Formula) (scale x : Formula) : Formula :=
  match g with
  | cdf => f.cdf ps x
  | density => f.density ps x / scale
  | logDensity => f.logDensity ps x - scale.log

/-- The value at points outside the support. -/
def outside : LawFunction → Float
  | logDensity => Binary64.negInfinity
  | _ => 0.0

/-- Whether a point is inside the support of a standard law. For a distribution function the ends
are outside, except for the least value of a discrete law. -/
def isInside (g : LawFunction) (f : Family) (ps : List Formula) (x : Formula) : Formula :=
  let (low, high) := f.bounds ps
  match g, f.isDiscrete with
  | cdf, true => (x.atLeast low).both (x.less high)
  | cdf, false => (low.less x).both (x.less high)
  | _, true =>
    let within := (x.atLeast low).both (x.atMost high)
    if f = .categorical then within else within.both (x.floor.equal x)
  | _, false => (low.atMost x).both (x.atMost high)

/-- The values at the points that need no formula: where the parameters or the point are bad, and
beyond the greatest value. -/
def background (g : LawFunction) (admissible beyond : Bool) (x : Float) : Float :=
  if !admissible || x.isNaN then Binary64.nan
  else if g = cdf && beyond then 1.0
  else g.outside

/-- A probability, kept between zero and one. -/
def clip (x : Float) : Float := if x < 0.0 then 0.0 else if x > 1.0 then 1.0 else x

/-- The cells of an array of truth values spread to a shape. -/
def truths (shape : List Nat) (t : Tensor Value) : List Bool :=
  (t.spread shape).map Value.cellTruth

/-- A function of a distribution at points of the standard law. -/
def evaluateAt (g : LawFunction) (f : Family) (p : Parameters) (x : Tensor Value) :
    Except Failure (Tensor Value) := do
  let ps := p.formulas
  let point := ofTensor x
  let admissible ← ((f.isAdmissible ps).both ((ofTensor p.scale).greater 0)).tensor?
  let inside ← (g.isInside f ps point).tensor?
  let beyond ← (point.atLeast (f.bounds ps).2).tensor?
  let all ← ((ofTensor admissible).both (ofTensor inside)).tensor?
  if x.kind = .mixed || x.kind = .complex then throw .unsuitableKind
  let shape := all.shape
  let xs := (x.spread shape).map Value.toFloat
  let admissible := truths shape admissible
  let beyond := truths shape beyond
  let chosen := List.zipWith (fun inside x => inside && (g ≠ cdf || !f.isDiscrete || x.isFinite))
    (truths shape all) xs
  let background := List.zipWith (fun (a, b) x => g.background a b x) (admissible.zip beyond) xs
  let p := p.select f shape chosen
  let point := ofTensor (x.select shape chosen)
  if f.isDiscrete then
    let formula := g.standard f p.formulas point
    let formula := if g = logDensity then formula else formula.special₁ clip
    Tensor.place shape background chosen formula
  else Tensor.place shape background chosen (g.stretched f p.formulas (ofTensor p.scale) point)

/-- A point as one of the standard law. The kind of the point decides how it is computed. -/
def standardize (f : Family) (p : Parameters) (x : Tensor Value) : Except Failure (Tensor Value) :=
  if f.isDiscrete then (ofTensor x - ofTensor p.location).tensor?
  else do
    let z ← ((ofTensor x - ofTensor p.location) / ofTensor p.scale).tensor?
    if x.kind = .mixed || x.kind = .complex then return { z with kind := x.kind }
    else if z.kind = .mixed then z.mapM .real fun c => c.float?.map Value.float
    else return z.toKind .real

/-- A function of a distribution at a point, or at every cell of an array. -/
def evaluate (g : LawFunction) (f : Family) (ps : List Value) (x : Value) :
    Except Failure Value := do
  let x ← x.tensor?
  let p ← Parameters.of ps
  let z ← standardize f p x
  return Value.ofTensor (← g.evaluateAt f p z)

end LawFunction

end PlateModel
