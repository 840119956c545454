import PlateModel.Emission.Node
import PlateModel.Resolution.Lowering

/-!
# The state of a compilation

The state holds the arrays, the data and the rules that a model has given so far. Rules are only
ever added: a symbol has at most one rule, a logical or a stochastic one, and a symbol that data
bind has no logical rule. Adding a rule that is already there changes nothing.

A computation on the state may fail; what it has done before it fails stays done.

* `State.addLogical`, `State.addStochastic`: the state with one more rule.
* `Compiling.Returns`: what holds of every result that a computation returns.
* `Compiling.attach`: a computation whose results come with what holds of them.
-/

namespace PlateModel

/-- The state of a compilation. A stochastic rule is the compiled call of a distribution. -/
structure State extends Definitions where
  registry : Registry
  stochastic : Assoc Generator
  /-- The nodes that were emitted last. -/
  nodes : Option (Assoc Node)
  deriving Inhabited

namespace State

def empty : State := ⟨⟨.empty, .empty⟩, .empty, .empty, none⟩

/-- Whether a constant says of a symbol what the data say. -/
def confirms (v : Number) : Expr → Bool
  | .literal w _ => w.equal v
  | _ => false

/-- Adds a logical rule; none if the same rule is there already. -/
def addLogical (s : State) (x : Symbol) (rhs : Expr) (l : Option Location) :
    Except Fault (Option State) := do
  let name := x.name
  if s.stochastic.contains name then throw (.model (.twoKinds name) l)
  if let some v := s.data.get? name then
    if confirms v rhs then return none
    throw (.model (.boundByData name) l)
  match s.logical.get? name with
  | some previous =>
    if previous.same rhs then return none
    throw (.model (.redefined name previous) l)
  | none => return some { s with logical := s.logical.put name rhs }

/-- Adds a stochastic rule; none if the same rule is there already. -/
def addStochastic (s : State) (x : Symbol) (rule : Generator) (l : Option Location) :
    Except Fault (Option State) := do
  let name := x.name
  if s.logical.contains name then throw (.model (.twoKinds name) l)
  match s.stochastic.get? name with
  | some previous =>
    if previous.expression.same rule.expression then return none
    throw (.model (.resampled name previous.expression) l)
  | none => return some { s with stochastic := s.stochastic.put name rule }

end State

/-! ## Computations on the state -/

/-- A computation on the state that may fail. -/
abbrev Compiling := ExceptT Fault (StateM State)

namespace Compiling

variable {α β : Type}

/-- A computation that only refers to arrays, on the whole state. -/
def refer (f : Definitions → Referring α) : Compiling α := fun s =>
  let (r, registry) := f s.toDefinitions s.registry
  (r, { s with registry })

/-- A computation whose failure for want of an index becomes its result. -/
def unlessUnresolved (m : Compiling α) : Compiling (Except Fault α) := fun s =>
  match m s with
  | (.ok a, s) => (.ok (.ok a), s)
  | (.error e, s) => if e.isUnresolvedIndex then (.ok (.error e), s) else (.error e, s)

/-- Every result that a computation returns has a property. -/
def Returns (m : Compiling α) (P : α → Prop) : Prop :=
  ∀ (s : State) (a : α) (s' : State), m s = (.ok a, s') → P a

theorem Returns.pure {P : α → Prop} {a : α} (h : P a) : Returns (pure a) P := by
  intro s b s' e
  cases e
  exact h

theorem Returns.trivial (m : Compiling α) : Returns m fun _ => True := fun _ _ _ _ => True.intro

theorem bind_apply (m : Compiling α) (f : α → Compiling β) (s : State) :
    (m >>= f) s = match m s with
      | (.ok a, t) => f a t
      | (.error e, t) => (.error e, t) := by
  simp only [Bind.bind, ExceptT.bind, ExceptT.mk, StateT.bind]
  rcases m s with ⟨_ | _, _⟩ <;> rfl

theorem Returns.bind {m : Compiling α} {f : α → Compiling β} {P : α → Prop} {Q : β → Prop}
    (hm : Returns m P) (hf : ∀ a, P a → Returns (f a) Q) : Returns (m >>= f) Q := by
  intro s b s' e
  rw [bind_apply] at e
  split at e
  · next a t h => exact hf a (hm s a t h) t b s' e
  · cases e

theorem Returns.mapM {f : α → Compiling β} {P : β → Prop} (hf : ∀ a, Returns (f a) P) :
    ∀ xs : List α, Returns (xs.mapM f) fun ys => ∀ y ∈ ys, P y
  | [] => by simpa using Returns.pure (by simp)
  | x :: xs => by
    rw [List.mapM_cons]
    refine (hf x).bind fun y hy => (Returns.mapM hf xs).bind fun ys hys => Returns.pure ?_
    simpa using ⟨hy, hys⟩

theorem Returns.mapM_length {f : α → Compiling β} :
    ∀ xs : List α, Returns (xs.mapM f) fun ys => ys.length = xs.length
  | [] => by simpa using Returns.pure (by simp)
  | x :: xs => by
    rw [List.mapM_cons]
    refine (Returns.trivial _).bind fun y _ => (Returns.mapM_length xs).bind fun ys hys => ?_
    exact Returns.pure (by simp [hys])

/-- A computation whose results come with what holds of them. -/
def attach {P : α → Prop} (m : Compiling α) (h : Returns m P) : Compiling { a // P a } := fun s =>
  match hm : m s with
  | (.ok a, s') => (.ok ⟨a, h s a s' hm⟩, s')
  | (.error e, s') => (.error e, s')

end Compiling

end PlateModel
