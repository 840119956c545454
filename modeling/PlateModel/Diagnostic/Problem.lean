import PlateModel.Model.Operator
import PlateModel.Model.Source
import PlateModel.Sexpr.Basic
import PlateModel.Sexpr.Reader

/-!
# What can be wrong with a model

`Problem` has one constructor for each rule that a model, its data or a reference to one of its
arrays can break. A problem holds the parts of the model it is about; the wording is in
`Problem.message`, `Problem.help` and `Problem.note`.

Besides the faults of a model there are those of the misuse of a network and those of the compiler
itself. A fault of a model has a code and a category; the two kinds of unresolved forms share
theirs.
-/

namespace PlateModel

/-! ## Kinds of faults -/

/-- What kind of rule a fault breaks. -/
inductive FaultKind
  /-- Any fault that has no closer kind. -/
  | general
  /-- A fault of a model that has no closer kind. -/
  | model
  /-- A statement or an expression of the wrong shape. -/
  | structural
  /-- Loop bounds, guards or indices that are not constants. -/
  | resolution
  /-- An index that is not a constant yet. -/
  | unresolvedIndex
  /-- A node that is defined twice. -/
  | redefinition
  /-- A reference that does not fit its array. -/
  | array
  /-- A special function without a unique stochastic target. -/
  | specialFunction
  | network
  | unknownVertex
  | duplicateVertex
  | capacity
  | notStochastic
  | notObserved
  | unsupportedFamily
  /-- A fault of the compiler, never of a model. -/
  | internal
  deriving Repr, DecidableEq

namespace FaultKind

/-- The code of a fault of a model. -/
def code? : FaultKind → Option String
  | model => some "E0001"
  | structural => some "E0100"
  | resolution | unresolvedIndex => some "E0200"
  | redefinition => some "E0300"
  | array => some "E0400"
  | specialFunction => some "E0500"
  | _ => none

/-- The category of a fault of a model. -/
def category? : FaultKind → Option String
  | model => some "model"
  | structural => some "structural"
  | resolution | unresolvedIndex => some "resolution"
  | redefinition => some "redefinition"
  | array => some "array"
  | specialFunction => some "special-function"
  | _ => none

/-- Whether the fault lies in the user's model. -/
def isModel (k : FaultKind) : Bool := k.code?.isSome

/-- Whether the fault is a misuse of a network. -/
def isNetwork : FaultKind → Bool
  | network | unknownVertex | duplicateVertex | capacity | notStochastic | notObserved
  | unsupportedFamily => true
  | _ => false

end FaultKind

/-- The code of every internal fault that names no other. -/
def internalCode : String := "E9999"

/-! ## Problems -/

/-- How a form of a written tree is malformed. -/
inductive FormProblem
  | noForm
  | notModel
  | needsTwoSides (head : String)
  | loopHeader
  | noCondition
  | notStatement (head : String)
  | noArrayName
  | rangeBounds
  | noDimensions
  | notExpression (head : String)
  deriving Repr, DecidableEq

namespace FormProblem

def message : FormProblem → String
  | noForm => "expected a form `(head ...)`"
  | notModel => "a model must start with `(model ...)`"
  | needsTwoSides head => "`" ++ head ++ "` takes a left-hand side and a right-hand side"
  | loopHeader => "`for` needs a loop variable, a lower and an upper bound"
  | noCondition => "`if` needs a condition"
  | notStatement head => "`" ++ head ++ "` is not a statement"
  | noArrayName => "`ref` needs an array name"
  | rangeBounds => "`range` takes a lower bound, an upper bound and an optional step"
  | noDimensions => "`array-literal` needs its dimensions first"
  | notExpression head => "`" ++ head ++ "` is not an expression"

end FormProblem

/-- What is wrong with a model. Texts stand for values that no model holds. -/
inductive Problem
  -- written trees
  | unreadable (why : Sexpr.ReadFailure)
  | malformedForm (why : FormProblem) (found : Sexpr)
  -- shapes
  | unknownFunction (f : String)
  | nestedArray (e : Expr)
  | nestedReference (e : Expr)
  | unnamedArray (base : Expr)
  | steppedRange (e : Expr)
  | noSymbol (shown : String)
  | notEvaluable (shown : String)
  | unknownLink (f : String)
  | linkInSample (f : String)
  | specialArity (f : String) (got : Nat)
  | unknownDistribution (f : String)
  | notDistribution (rhs : Expr)
  | parameterCount (f : String) (expected got : Nat)
  | loopVariable (x : String)
  | implicitTarget (base : Expr)
  | targetKind (lhs : Expr)
  | target (lhs : Expr)
  | targetSlice (lhs : Expr)
  -- data
  | dataKind (name kind : String)
  | dataRagged (name : String)
  | dataValue (name shown : String)
  -- resolution
  | stuck (first : Stmt)
  | fractionalBounds (lower upper : String)
  | guardNotTruth (condition : Expr) (value : String)
  | fractionalIndex (e : Expr) (value : String)
  | unresolvedIndex (e : Expr)
  -- definitions
  | twoKinds (symbol : String)
  | boundByData (symbol : String)
  | redefined (symbol : String) (previous : Expr)
  | resampled (symbol : String) (previous : Expr)
  -- arrays
  | registered (array : String)
  | rankMismatch (array : String) (rank uses : Nat)
  | cannotShrink (array : String) (old new : List Int)
  | noArray (array : String)
  | staleHandle (array : String) (generation current : Int)
  | unsupportedSlice (array shown : String)
  | steppedIndex (array : String)
  | outOfRange (array shown : String)
  | nonIntegerIndex (array shown : String)
  -- special functions
  | noSample (target : Expr) (f : String)
  | severalSamples (target : Expr) (f : String) (count : Nat)

namespace Problem

def kind : Problem → FaultKind
  | stuck _ | fractionalBounds .. | guardNotTruth .. | fractionalIndex .. => .resolution
  | unresolvedIndex _ => .unresolvedIndex
  | twoKinds _ | boundByData _ | redefined .. | resampled .. => .redefinition
  | registered _ | rankMismatch .. | cannotShrink .. | noArray _ | staleHandle ..
  | unsupportedSlice .. | steppedIndex _ | outOfRange .. | nonIntegerIndex .. => .array
  | noSample .. | severalSamples .. => .specialFunction
  | _ => .structural

private def ticked (s : String) : String := "`" ++ s ++ "`"

private def extents (shape : List Int) : String := Text.tuple (shape.map Decimal.ofInt)

def message : Problem → String
  | unreadable why => "malformed model tree: " ++ why.message
  | malformedForm why found => "malformed model tree: " ++ why.message ++ ", found " ++ found.write
  | unknownFunction f => "unknown function " ++ ticked f
  | nestedArray e | nestedReference e =>
    "nested indexing " ++ ticked e.source ++ " is not supported"
  | unnamedArray base => "only named arrays can be indexed, found " ++ ticked base.source
  | steppedRange e => "range with step " ++ ticked e.source ++ " is not supported"
  | noSymbol shown => "general expression " ++ ticked shown ++ " to symbol is not supported"
  | notEvaluable shown => "cannot evaluate " ++ shown
  | unknownLink f => ticked f ++ " is not a recognized link function"
  | linkInSample f =>
    "link function " ++ ticked f ++ " on the left-hand side of `~` is not supported"
  | specialArity f got =>
    ticked f ++ " takes a variable and a value, got " ++ Nat.repr got ++ " argument(s)"
  | unknownDistribution f => ticked f ++ " is not a recognized distribution"
  | notDistribution rhs =>
    "right-hand side of `~` must be a distribution, found " ++ ticked rhs.source
  | parameterCount f expected got =>
    ticked f ++ " takes " ++ Nat.repr expected ++ " parameter(s), got " ++ Nat.repr got
  | loopVariable x => "loop variable must be a scalar name, found " ++ ticked x
  | implicitTarget base =>
    "implicit indexing " ++ ticked (base.source ++ "[]") ++
      " is not supported on the left-hand side"
  | targetKind lhs =>
    "left-hand side can only be a scalar or an array cell, found " ++ ticked lhs.source
  | target lhs =>
    "left-hand side " ++ ticked lhs.source ++ " must be a scalar or a single array cell"
  | targetSlice lhs =>
    "left-hand side " ++ ticked lhs.source ++
      " must be a scalar or a single array cell, not a slice"
  | dataKind name kind =>
    "data for " ++ ticked name ++ " must be a number or an array of numbers, got " ++ kind
  | dataRagged name => "data array " ++ ticked name ++ " is not rectangular"
  | dataValue name shown => "data array " ++ ticked name ++ " holds a non-numeric value " ++ shown
  | stuck _ => "unresolvable loop bounds or conditions"
  | fractionalBounds lower upper =>
    "loop bounds need to be integers, got " ++ lower ++ ":" ++ upper
  | guardNotTruth condition value =>
    "condition " ++ ticked condition.source ++ " resolves to " ++ value ++ ", not to a boolean"
  | fractionalIndex e value => "index " ++ ticked e.source ++ " resolves to non-integer " ++ value
  | unresolvedIndex e => "index " ++ ticked e.source ++ " does not resolve to a constant"
  | twoKinds symbol => ticked symbol ++ " is defined both as a logical and a stochastic node"
  | boundByData symbol => ticked symbol ++ " is bound by data and cannot be redefined"
  | redefined symbol _ | resampled symbol _ => "repeated definition for " ++ ticked symbol
  | registered array => "array " ++ ticked array ++ " is already registered"
  | rankMismatch array rank uses =>
    "dimension doesn't match for " ++ ticked array ++ ": array has " ++ Nat.repr rank ++
      " dimension(s), reference uses " ++ Nat.repr uses
  | cannotShrink array old new =>
    "array " ++ ticked array ++ " cannot shrink from " ++ extents old ++ " to " ++ extents new
  | noArray array => "no array named " ++ ticked array
  | staleHandle array generation current =>
    "stale handle for " ++ ticked array ++ ": generation " ++ Decimal.ofInt generation ++
      ", current " ++ Decimal.ofInt current
  | unsupportedSlice array shown => "unsupported slice " ++ shown ++ " for " ++ ticked array
  | steppedIndex array => "range with step used to index " ++ ticked array
  | outOfRange array shown => "index " ++ shown ++ " out of range for " ++ ticked array
  | nonIntegerIndex array shown =>
    "index " ++ shown ++ " of " ++ ticked array ++ " is not an integer"
  | noSample x f =>
    "can't find a stochastic assignment for " ++ ticked x.source ++ " used in " ++ ticked f
  | severalSamples x f count =>
    ticked x.source ++ " used in " ++ ticked f ++ " has " ++ Nat.repr count ++
      " stochastic assignments"

/-- How to mend a problem. -/
def help : Problem → Option String
  | nestedArray _ => some "BUGS arrays are tensors: write `a[i, j]` instead of `a[i][j]`"
  | nestedReference _ =>
    some "index the array once with all of its indices, as in `x[i, j]`"
  | boundByData _ => some "remove the logical definition or the data value"
  | _ => none

/-- What else is known about a problem. -/
def note : Problem → Option String
  | unknownLink _ => some ("supported link functions: " ++ ", ".intercalate (links.map (·.1)))
  | stuck first => some ("first unresolved statement: " ++ ticked first.headline)
  | redefined _ previous => some ("previously defined as " ++ ticked previous.source)
  | resampled symbol previous =>
    some ("previously defined as " ++ ticked (symbol ++ " ~ " ++ previous.source))
  | noSample .. | severalSamples .. =>
    some "the first argument must match the left-hand side of exactly one `~` statement"
  | _ => none

end Problem

end PlateModel
