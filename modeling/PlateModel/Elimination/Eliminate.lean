import PlateModel.Assoc
import PlateModel.Diagnostic.Fault

/-!
# Variable elimination

A factor has variables, parents, and what is distributed over the variables. What that is does not
matter for multiplying factors and for leaving out variables, so it is a parameter: `FactorRules`
says how it is multiplied, observed and reported.

Factors are kept in a table under their first variables. A variable is eliminated by multiplying all
factors that mention it and leaving it out of the product. What is left when all have been
eliminated is multiplied and reported.

A query asks for what is known of one vertex, given values of others. Every stochastic vertex has a
factor to begin with; those of observed vertices are replaced, and all vertices that are neither
asked for nor given are eliminated in the order of their numbers.

* `eliminate`, `eliminateAll`: one variable, and all variables of a list in order.
* `query`: the answer to a query.
-/

namespace PlateModel

/-! ## Factors -/

structure Factor (δ : Type) where
  scope : List String
  distribution : δ
  parents : List String

/-- What factors need to know of their distributions. -/
structure FactorRules (δ ν ρ : Type) where
  /-- The product of two distributions, over some variables. -/
  product : List String → δ → δ → Except Fault δ
  /-- The distribution of a vertex that is observed to have a value; none if it stays what it is. -/
  observed : String → ν → δ → Except Fault (Option δ)
  /-- What is reported of a distribution at the end. -/
  report : δ → Except Fault ρ
  /-- What is reported when no factor is left. -/
  nothing : ρ

namespace Factor

variable {δ ν ρ : Type}

/-- The factor of a vertex over itself. -/
def ofVertex (name : String) (d : δ) (parents : List String) : Factor δ := ⟨[name], d, parents⟩

/-- The product of two factors. -/
def multiply (rules : FactorRules δ ν ρ) (f g : Factor δ) : Except Fault (Factor δ) := do
  let scope := (f.scope ++ g.scope).eraseDups
  let d ← rules.product scope f.distribution g.distribution
  return ⟨scope, d, (f.parents ++ g.parents).eraseDups⟩

/-- The product of some factors from left to right. -/
def product (rules : FactorRules δ ν ρ) (f : Factor δ) (fs : List (Factor δ)) :
    Except Fault (Factor δ) := fs.foldlM (multiply rules) f

/-- The factor without a variable; what is distributed over the others stays as it is. -/
def without (f : Factor δ) (x : String) : Factor δ :=
  { f with scope := f.scope.filter (· ≠ x), parents := f.parents.filter (· ≠ x) }

/-- Whether a factor has a variable, or has it as a parent. -/
def mentions (f : Factor δ) (x : String) : Bool := f.scope.contains x || f.parents.contains x

end Factor

/-! ## Elimination -/

/-- Factors under their names. -/
abbrev Factors (δ : Type) := Assoc (Factor δ)

variable {δ ν ρ : Type}

namespace Factors

/-- Replaces the factor of an observed vertex. -/
def observe (rules : FactorRules δ ν ρ) (fs : Factors δ) (name : String) (value : ν) (prior : δ) :
    Except Fault (Factors δ) := do
  match ← rules.observed name value prior with
  | some d => return fs.put name ⟨[name], d, []⟩
  | none => return fs

/-- Eliminates a variable. -/
def eliminate (rules : FactorRules δ ν ρ) (fs : Factors δ) (x : String) :
    Except Fault (Factors δ) := do
  let relevant := fs.entries.filter fun (_, f) => f.mentions x
  match relevant.map (·.2) with
  | [] => return fs
  | f :: rest =>
    let reduced := (← Factor.product rules f rest).without x
    let left := relevant.foldl (fun fs (k, _) => fs.erase k) fs
    match reduced.scope with
    | [] => return left
    | k :: _ => return left.put k reduced

/-- Eliminates variables one after the other. -/
def eliminateAll (rules : FactorRules δ ν ρ) (fs : Factors δ) :
    List String → Except Fault (Factors δ)
  | [] => .ok fs
  | x :: rest => do eliminateAll rules (← fs.eliminate rules x) rest

/-- What is reported of the product of all factors. -/
def report (rules : FactorRules δ ν ρ) (fs : Factors δ) : Except Fault ρ :=
  match fs.values with
  | [] => .ok rules.nothing
  | f :: rest => do rules.report (← Factor.product rules f rest).distribution

end Factors

/-! ## Queries -/

/-- The vertices of a network by number: a name, and the factor of a stochastic vertex. -/
abbrev FactorGraph (δ : Type) := List (String × Option (Factor δ))

namespace FactorGraph

/-- The factor of a vertex, if it is stochastic. The vertex must exist. -/
def find (g : FactorGraph δ) (name : String) : Except Fault (Option (Factor δ)) :=
  match g.lookup name with
  | some f => .ok f
  | none => .error (.network (.unknownVertex name))

/-- The factors of all stochastic vertices. -/
def factors (g : FactorGraph δ) : Factors δ :=
  .ofList (g.filterMap fun (x, f) => f.map fun f => (x, f))

/-- Replaces the factors of observed vertices, which must be stochastic. -/
def observe (rules : FactorRules δ ν ρ) (g : FactorGraph δ) (fs : Factors δ) :
    List (String × ν) → Except Fault (Factors δ)
  | [] => .ok fs
  | (x, value) :: rest => do
    match ← g.find x with
    | none => throw (.network (.evidenceOnDeterministic x))
    | some f => observe rules g (← fs.observe rules x value f.distribution) rest

/-- The vertices that are neither asked for nor given. -/
def eliminated (g : FactorGraph δ) (x : String) (evidence : List (String × ν)) : List String :=
  (g.map (·.1)).filter fun y => y ≠ x && !(evidence.map (·.1)).contains y

end FactorGraph

/-- What is known of a vertex, given values of others. -/
def query (rules : FactorRules δ ν ρ) (g : FactorGraph δ) (x : String)
    (evidence : List (String × ν)) : Except Fault ρ := do
  let _ ← g.find x
  let fs ← g.observe rules g.factors evidence
  let fs ← fs.eliminateAll rules (g.eliminated x evidence)
  fs.report rules

end PlateModel
