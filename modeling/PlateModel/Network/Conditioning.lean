import PlateModel.Network.Basic

/-!
# Conditioning

A network is conditioned by observing values of stochastic vertices, and deconditioned by no longer
observing them. Both work through a list and stop at the first name that cannot be treated; what was
done until then is part of the result, so a caller may keep it or drop it.

* `Network.observeAll`, `Network.forgetAll`: as far as it goes, with the fault that ended it.
* `Network.condition`, `Network.decondition`: all or nothing.
-/

namespace PlateModel

/-- How far conditioning has come. -/
structure Conditioning where
  network : Network
  /-- Vertices that were observed before and have a new value now. -/
  overwritten : List String
  fault : Option Fault

/-- What is said about a vertex that was observed before. -/
def overwriteWarning (name : String) : String :=
  "Variable " ++ name ++ " is already observed, overwriting its value"

namespace Network

/-- The number of a stochastic vertex, and whether it is observed. -/
def stochasticVertex (n : Network) (name : String) (whenNot : NetworkProblem) :
    Except Fault (Nat × Bool) := do
  let (i, v) ← n.skeleton.find name
  if !v.role.isStochastic then throw (.network whenNot)
  return (i, ← n.isObserved i)

/-- Observes a value of the vertex with a name and a number. -/
def observe (n : Network) (i : Nat) (name : String) (value : Value) : Network :=
  { n with observations :=
      ⟨n.observations.observed.set i true, n.observations.values.put name value⟩ }

/-- Stops observing the vertex with a name and a number. -/
def forget (n : Network) (i : Nat) (name : String) : Network :=
  { n with observations :=
      ⟨n.observations.observed.set i false, n.observations.values.erase name⟩ }

/-- Observes values of vertices, up to the first name that is not one of a stochastic vertex. -/
def observeAll (n : Network) : List (String × Value) → Conditioning
  | [] => ⟨n, [], none⟩
  | (name, value) :: rest =>
    match n.stochasticVertex name (.conditionDeterministic name) with
    | .error e => ⟨n, [], some e⟩
    | .ok (i, already) =>
      let r := observeAll (n.observe i name value) rest
      { r with overwritten := if already then name :: r.overwritten else r.overwritten }

/-- Stops observing vertices, up to the first name that is not one of an observed vertex. -/
def forgetAll (n : Network) : List String → Conditioning
  | [] => ⟨n, [], none⟩
  | name :: rest =>
    match n.stochasticVertex name (.deconditionDeterministic name) with
    | .error e => ⟨n, [], some e⟩
    | .ok (_, false) => ⟨n, [], some (.network (.notObserved name))⟩
    | .ok (i, true) => forgetAll (n.forget i name) rest

/-- Stops observing some vertices, or all that are observed. -/
def forgetSome (n : Network) (names : Option (List String)) : Conditioning :=
  n.forgetAll (names.getD n.observedNames)

end Network

/-- The network if all went well. -/
def Conditioning.network? (c : Conditioning) : Except Fault Network :=
  match c.fault with
  | none => .ok c.network
  | some e => .error e

namespace Network

/-- The network with further observations. -/
def condition (n : Network) (observations : List (String × Value)) : Except Fault Network :=
  (n.observeAll observations).network?

/-- The network without some observations, or without any. -/
def decondition (n : Network) (names : Option (List String)) : Except Fault Network :=
  (n.forgetSome names).network?

end Network

end PlateModel
