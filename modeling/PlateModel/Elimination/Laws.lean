import PlateModel.Elimination.Eliminate
import PlateModel.Network.Basic

/-!
# Factors of probability laws

Products of factors are known for two families: the means and the variances of normal laws add up,
and the probabilities of categories are multiplied. An observed normal vertex becomes a narrow
normal law around its value, an observed category a law on a single point.

* `lawRules`: the rules for factors of a network.
* `Network.query`: a query to a network.
-/

namespace PlateModel

namespace Value

/-- The name of the kind of a plain value. -/
def kindName : Value → String
  | number (.int _) => "int"
  | number (.real _) => "float"
  | number (.truth _) => "bool"
  | complex _ => "complex"
  | missing => "NoneType"
  | text _ => "str"
  | list _ => "list"
  | _ => "dict"

/-- The name of the family of a distribution, or of the kind of any other value. -/
def familyName : Value → String
  | distribution f _ => f.name
  | tensor _ => "ndarray"
  | cell k v =>
    match k with
    | .truth => "bool"
    | .byte => "int8"
    | .word => "int64"
    | .unsigned => "uint64"
    | .half => "float16"
    | .real => "float64"
    | .complex => "complex128"
    | .text => "str"
    | .mixed => v.kindName
  | v => v.kindName

/-- The float that a value stands for as evidence. A text is read. -/
def evidence? : Value → Except Failure Float
  | missing => .error .unsuitableKind
  | v => v.float?

/-- A value that is evidence, as messages show it. -/
def shown : Value → String
  | number n => n.text?.getD ""
  | text s => Text.quoted s
  | _ => ""

/-- The float that a value without axes is. -/
def scalar? (v : Value) : Except Failure Float :=
  match v.unwrap with
  | number n =>
    match n.toFloat? with
    | some x => .ok x
    | none => .error .overflow
  | _ => .error .unsuitableKind

end Value

namespace Distribution

/-- The normal distribution whose mean and variance are the sums of those of two distributions. -/
def convolve (c d : Distribution) : Except Failure Value := do
  let mean ← (Formula.of (← c.mean) + Formula.of (← d.mean)).value
  let scale ← (Formula.of (← c.variance) + Formula.of (← d.variance)).sqrt.value
  return .distribution .normal [mean, scale]

/-- The density at the mean. -/
def densityAtMean (d : Distribution) : Except Failure Float := do
  (← LawFunction.density.evaluate d.family d.parameters (← d.mean)).scalar?

end Distribution

/-- Multiplies the probabilities of categories. -/
def multiplyCategories (scope : List String) (c d : Distribution) : Except Fault Value := do
  let ps ← orFault c.probabilities
  let qs ← orFault d.probabilities
  if ps.length ≠ qs.length then throw (.network (.categoryCounts ps.length qs.length))
  let products := List.zipWith (· * ·) ps qs
  if 0.0 + sumPairwise products == 0.0 then throw (.network (.noMass scope))
  return Family.ofCategories (← orFault (Family.categories products))

/-- The product of two distributions over some variables. -/
def multiplyLaws (scope : List String) (v w : Value) : Except Fault Value :=
  let unknown : Except Fault Value :=
    .error (.network (.familyPair v.familyName w.familyName))
  match v.distribution?, w.distribution? with
  | some c, some d =>
    match c.family, d.family with
    | .normal, .normal => orFault (c.convolve d)
    | .categorical, .categorical => multiplyCategories scope c d
    | _, _ => unknown
  | _, _ => unknown

/-- The scale of the normal law around an observed value. -/
def evidenceScale : Float := 0.1

/-- The law on a category. It must be one of so many. -/
def categoryAt (name : String) (value : Value) (count : Nat) : Except Fault Value := do
  let x ← orFault value.evidence?
  match Binary64.toInt? x with
  | some i =>
    if 1 ≤ i ∧ i ≤ count then
      let ps := (List.range count).map fun k : Nat => if k + 1 = i then 1.0 else 0.0
      return Family.ofCategories (← orFault (Family.categories ps))
    else throw (.network (.evidenceCategory value.shown name count))
  | none => throw (.network (.evidenceCategory value.shown name count))

/-- The distribution of a vertex that is observed; of most families, what it was. -/
def observeLaw (name : String) (value prior : Value) : Except Fault (Option Value) :=
  match prior.distribution? with
  | none => .ok none
  | some d =>
    match d.family with
    | .normal => do
      let x ← orFault value.evidence?
      return some (.distribution .normal [.float x, .float evidenceScale])
    | .categorical => do
      let ps ← orFault d.probabilities
      return some (← categoryAt name value ps.length)
    | _ => .ok none

/-- The density of a normal law at its mean, or the probability of the first category. -/
def reportLaw (v : Value) : Except Fault Float :=
  let unknown : Except Fault Float := .error (.network (.marginalFamily v.familyName))
  match v.distribution? with
  | none => unknown
  | some d =>
    match d.family with
    | .normal => orFault d.densityAtMean
    | .categorical => do
      match ← orFault d.probabilities with
      | p :: _ => return p
      | [] => throw (.evaluation .outOfBounds)
    | _ => unknown

/-- The rules for factors of probability laws. -/
def lawRules : FactorRules Value Value Float where
  product := multiplyLaws
  observed := observeLaw
  report := reportLaw
  nothing := 1.0

namespace Network

/-- The factor of a stochastic vertex. -/
def factor (n : Network) (name : String) : Except Fault (Factor Value) := do
  let (_, v) ← n.skeleton.find name
  match v.role with
  | .stochastic d _ => return .ofVertex name d (← n.skeleton.parents name)
  | .deterministic _ => throw (.network (.factorOfDeterministic name))

/-- The vertices with the factors of those that are stochastic. -/
def factorGraph (n : Network) : FactorGraph Value :=
  n.skeleton.names.map fun x => (x, (n.factor x).toOption)

/-- What is known of a vertex, given values of others. -/
def query (n : Network) (x : String) (evidence : List (String × Value)) : Except Fault Float :=
  PlateModel.query lawRules n.factorGraph x evidence

end Network

end PlateModel
