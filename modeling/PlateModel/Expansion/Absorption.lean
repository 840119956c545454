import PlateModel.State.Basic

/-!
# Absorbing definitions into the rules

A definition whose indices come to integers becomes a rule of the state; it is absorbed. One
whose indices do not is postponed, with the fault that kept it.

* `absorbLogical`, `absorbStochastic`: one definition.
* `registerTargets`: makes the cells on left-hand sides known before any right-hand side is lowered.
-/

namespace PlateModel

/-- What has become of a statement. -/
inductive Absorption
  /-- It is none of the definitions in question. -/
  | skipped
  /-- An index of it does not come to an integer yet. -/
  | postponed (why : Fault)
  /-- Its rule is in the state; it was new, or there already. -/
  | absorbed (isNew : Bool)

/-- The symbol that a left-hand side defines. -/
def target (lhs : Expr) (l : Option Location) : Compiling Symbol := do
  match lhs with
  | .name _ | .index .. => pure ()
  | lhs => throw (.model (.target lhs) l)
  match ← Compiling.refer (·.symbolic lhs) with
  | .inl x =>
    let s ← get
    if s.registry.contains x.name then throw (.model (.targetSlice lhs) l)
    return x
  | .inr (.one c) => return .cell c
  | .inr (.block ..) => throw (.model (.targetSlice lhs) l)

/-- Both sides of a definition, the left as a symbol and the right without array references. -/
def lowered (lhs rhs : Expr) (l : Option Location) : Compiling (Except Fault (Symbol × Expr)) :=
  Compiling.unlessUnresolved do
    let x ← target lhs l
    return (x, ← Compiling.refer (·.lower rhs))

/-- Keeps a state that a rule has been added to. -/
def absorb : Option State → Compiling Absorption
  | some s => do
    set s
    return .absorbed true
  | none => return .absorbed false

/-- Makes a logical definition a rule. -/
def absorbLogical : Stmt → Compiling Absorption
  | .assign lhs rhs l => do
    match ← lowered lhs rhs l with
    | .error why => return .postponed why
    | .ok (x, rhs) => absorb (← (← get).addLogical x rhs l)
  | _ => return .skipped

/-- The right-hand side of a stochastic definition must be a distribution with as many parameters as
it takes. -/
def checkDistribution (rhs : Expr) (l : Option Location) : Except Fault Unit :=
  match rhs with
  | .call f args _ =>
    match Family.ofName? f with
    | none => .error (.model (.unknownDistribution f) l)
    | some family =>
      if args.length = family.arity then .ok ()
      else .error (.model (.parameterCount f family.arity args.length) l)
  | rhs => .error (.model (.unknownDistribution rhs.source) l)

/-- Makes a stochastic definition a rule. -/
def absorbStochastic : Stmt → Compiling Absorption
  | .sample lhs rhs l => do
    checkDistribution rhs l
    match ← lowered lhs rhs l with
    | .error why => return .postponed why
    | .ok (x, rhs) =>
      let rule ← Generator.ofExpr rhs
      absorb (← (← get).addStochastic x rule l)
  | _ => return .skipped

/-- Makes the cell or the cells on the left-hand side of a definition known, if its indices come to
integers. -/
def registerTarget : Stmt → Compiling Unit
  | .assign lhs@(.index ..) _ _ | .sample lhs@(.index ..) _ _ => do
    let _ ← Compiling.unlessUnresolved <| Compiling.refer (·.symbolic lhs)
  | _ => return ()

end PlateModel
