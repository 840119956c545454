import PlateModel.Diagnostic.Problem
import PlateModel.Diagnostic.Render
import PlateModel.Failure

/-!
# Faults

Everything that can go wrong in the library, as causes: problems of a model, misuse of a network, a
call with the wrong arguments, a failed evaluation, and faults of the compiler itself.
-/

namespace PlateModel

/-- Misuse of a network. -/
inductive NetworkProblem
  | duplicateVertex (name : String)
  | capacity (name : String) (limit : Int)
  | unknownVertex (name : String)
  | cycle (parent child : String)
  | noDistribution (name : String)
  | noFunction (name : String)
  | conditionDeterministic (name : String)
  | deconditionDeterministic (name : String)
  | notObserved (name : String)
  | sameVertex (name : String)
  | testedInCondition
  | missingNode (parent child : String)
  | cyclicNodes (edges : List (String × String))
  | factorOfDeterministic (name : String)
  | evidenceOnDeterministic (name : String)
  | categoryCounts (left right : Nat)
  | noMass (scope : List String)
  | familyPair (left right : String)
  | evidenceCategory (shown name : String) (count : Nat)
  | marginalFamily (family : String)
  deriving Repr, DecidableEq

namespace NetworkProblem

def kind : NetworkProblem → FaultKind
  | duplicateVertex _ => .duplicateVertex
  | capacity .. => .capacity
  | unknownVertex _ => .unknownVertex
  | noDistribution _ | conditionDeterministic _ | deconditionDeterministic _
  | factorOfDeterministic _ | evidenceOnDeterministic _ => .notStochastic
  | notObserved _ => .notObserved
  | categoryCounts .. | familyPair .. | marginalFamily _ => .unsupportedFamily
  | _ => .network

private def ticked (s : String) : String := "`" ++ s ++ "`"

private def edgeText (e : String × String) : String :=
  "(" ++ Text.quoted e.1 ++ ", " ++ Text.quoted e.2 ++ ")"

def message : NetworkProblem → String
  | duplicateVertex name => "vertex " ++ ticked name ++ " already exists"
  | capacity name limit =>
    "cannot add " ++ ticked name ++ ": network is at its capacity of " ++ Decimal.ofInt limit ++
      " vertices"
  | unknownVertex name => "no vertex named " ++ ticked name
  | cycle parent child =>
    "edge " ++ ticked parent ++ " -> " ++ ticked child ++ " would create a cycle"
  | noDistribution name => ticked name ++ " is deterministic and has no distribution"
  | noFunction name => ticked name ++ " is stochastic and has no deterministic function"
  | conditionDeterministic name =>
    "variable " ++ ticked name ++ " is not stochastic, cannot condition on it"
  | deconditionDeterministic name =>
    "variable " ++ ticked name ++ " is not stochastic, cannot decondition on it"
  | notObserved name => "variable " ++ ticked name ++ " is not observed, cannot decondition on it"
  | sameVertex name => "cannot test " ++ ticked name ++ " for independence from itself"
  | testedInCondition => "the tested variables must not be in the conditioning set"
  | missingNode parent child =>
    ticked parent ++ " is used by " ++ ticked child ++ " but has no node"
  | cyclicNodes edges =>
    "emitted nodes form a cycle: [" ++ ", ".intercalate (edges.map edgeText) ++ "]"
  | factorOfDeterministic name => "cannot create factor for deterministic node " ++ ticked name
  | evidenceOnDeterministic name => "evidence on deterministic node " ++ ticked name
  | categoryCounts left right =>
    "cannot multiply categorical factors with " ++ Nat.repr left ++ " and " ++ Nat.repr right ++
      " categories"
  | noMass scope =>
    "product of factors over " ++ ", ".intercalate scope ++ " has zero probability mass"
  | familyPair left right =>
    "cannot multiply factors of families " ++ ticked left ++ " and " ++ ticked right
  | evidenceCategory shown name count =>
    "evidence " ++ shown ++ " on " ++ ticked name ++ " is not one of its categories 1.." ++
      Nat.repr count
  | marginalFamily family => "cannot report a marginal for family " ++ ticked family

end NetworkProblem

/-- A form that reached the compilation of expressions although earlier passes remove it. -/
inductive InternalProblem
  | reference (e : Expr)
  | range (e : Expr)
  | colon

def InternalProblem.message : InternalProblem → String
  | reference e => "array reference `" ++ e.source ++ "` reached code generation unlowered"
  | range e => "range `" ++ e.source ++ "` reached code generation unlowered"
  | colon => "full-range marker reached code generation unlowered"

/-- Why a call of a compiled function has no value. -/
inductive CallFailure
  | tooManyArguments (parameters : List String) (got : Nat)
  | missingArguments (names : List String)
  /-- A value is given by the name of the function itself. -/
  | reservedName
  | evaluation (why : Failure)
  deriving Repr, DecidableEq

/-- The wording of a failed call, where it has one. -/
def CallFailure.message? : CallFailure → Option String
  | tooManyArguments parameters got =>
    some ("expected at most " ++ Nat.repr parameters.length ++ " argument(s) " ++
      Text.tuple (parameters.map Text.quoted) ++ ", got " ++ Nat.repr got)
  | missingArguments names => some ("missing value(s) for " ++ ", ".intercalate names)
  | reservedName | evaluation _ => none

/-- Anything that can go wrong. -/
inductive Fault
  | model (problem : Problem) (location : Option Location)
  | network (problem : NetworkProblem)
  | internal (problem : InternalProblem)
  | call (why : CallFailure)
  | passCycle
  /-- A result was asked for that no pass has stored. -/
  | missingResult (pass : String)

namespace Fault

/-- A failed evaluation as a fault. -/
def evaluation (why : Failure) : Fault := call (.evaluation why)

/-- Whether the fault is an index that may be resolved later. -/
def isUnresolvedIndex : Fault → Bool
  | model (.unresolvedIndex _) _ => true
  | _ => false

/-- The diagnostic of a fault that is reported to the user. -/
def diagnostic? : Fault → Option Diagnostic
  | model p l => some ⟨p.message, l, p.kind.code?, p.help, p.note, none⟩
  | network p => some ⟨p.message, none, none, none, none, none⟩
  | _ => none

end Fault

/-- A failed evaluation as a fault. -/
def orFault {α : Type} : Except Failure α → Except Fault α
  | .ok a => .ok a
  | .error e => .error (.evaluation e)

end PlateModel
