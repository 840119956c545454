import PlateModel.Expansion.Descent
import PlateModel.State.Basic

/-!
# Unrolling loops

A loop whose bounds come to integers is replaced by its body, once for every integer between the
bounds, with the integer in the place of the loop variable; the loops of the body follow at once. A
loop whose bounds are not numbers yet stays as it is.

* `unrollAll`: some statements with their loops unrolled, and how many loops that were.
* `heights_unrollAll`: unrolling lets the heights of the statements descend.
-/

namespace PlateModel

/-- The number that a bound comes to; truth values are no bounds. -/
def Outcome.bound? (o : Outcome) : Option Number := o.number?.filter (!·.isTruth)

/-- Bounds of a loop as integers. -/
def integerBounds (a b : Number) (l : Option Location) : Except Fault (Int × Int) := do
  let fractional : Fault :=
    match a.text?, b.text? with
    | some s, some t => .model (.fractionalBounds s t) l
    | _, _ => .evaluation .unsuitableValue
  let integer (n : Number) : Except Fault Int :=
    match n.toFloat? with
    | none => .error (.evaluation .overflow)
    | some x =>
      match n, Binary64.toInt? x with
      | .int i, _ => .ok i
      | _, some i => .ok i
      | _, none => .error fractional
  let i ← integer a
  let j ← integer b
  return (i, j)

/-- The bounds of a loop, if they come to numbers. -/
def loopBounds (lower upper : Expr) (l : Option Location) : Compiling (Option (Int × Int)) := do
  let outcomes ← Compiling.unlessUnresolved <| Compiling.refer fun d => do
    let a ← d.resolve lower
    return (a, ← d.resolve upper)
  match outcomes with
  | .error _ => return none
  | .ok (a, b) =>
    match a.bound?, b.bound? with
    | some a, some b => return some (← integerBounds a b l)
    | _, _ => return none

/-- The integers between two bounds in ascending order. -/
def integers (lower upper : Int) : List Int :=
  (List.range (upper + 1 - lower).toNat).map fun k : Nat => lower + k

mutual

/-- The statement, with expressions in the places of names, with its loops unrolled. -/
def unroll (env : Mapping) : Stmt → Compiling (List Stmt × Nat)
  | .loop i lower upper body l => do
    match ← loopBounds (lower.substitute env) (upper.substitute env) l with
    | none => return ([(Stmt.loop i lower upper body l).substitute env], 0)
    | some (a, b) =>
      let turns ← (integers a b).mapM fun k => unrollAll ((i, .ofNumber (.int k)) :: env) body
      return (turns.flatMap (·.1), turns.foldl (fun n turn => n + turn.2) 0 + 1)
  | s => return ([s.substitute env], 0)

/-- Some statements with their loops unrolled, and how many loops that were. -/
def unrollAll (env : Mapping) : List Stmt → Compiling (List Stmt × Nat)
  | [] => return ([], 0)
  | s :: rest => do
    let (ss, m) ← unroll env s
    let (ts, n) ← unrollAll env rest
    return (ss ++ ts, m + n)

end

/-! ## Heights -/

open Compiling Stmt

mutual

theorem unroll_height_le (env : Mapping) :
    ∀ s : Stmt, Returns (unroll env s) fun r => ∀ t ∈ r.1, t.height ≤ s.height
  | .assign .. | .sample .. | .branch .. => by
    refine Returns.pure ?_
    simp [height_substitute]
  | .loop i lower upper body l => by
    unfold unroll
    refine (Returns.trivial _).bind fun bounds _ => ?_
    cases bounds with
    | none =>
      refine Returns.pure ?_
      simp [height_substitute]
    | some ab =>
      refine (Returns.mapM (fun k => unrollAll_height_le _ body) _).bind fun turns h => ?_
      refine Returns.pure fun t ht => ?_
      obtain ⟨r, hr, ht⟩ := List.mem_flatMap.1 ht
      exact Nat.le_succ_of_le (h r hr t ht)

theorem unrollAll_height_le (env : Mapping) :
    ∀ ss : List Stmt, Returns (unrollAll env ss) fun r => ∀ t ∈ r.1, t.height ≤ maxHeight ss
  | [] => Returns.pure (by simp)
  | s :: rest => by
    unfold unrollAll
    refine (unroll_height_le env s).bind fun a ha => ?_
    refine (unrollAll_height_le env rest).bind fun b hb => Returns.pure fun t ht => ?_
    rcases List.mem_append.1 ht with ht | ht
    · exact Nat.le_trans (ha t ht) (Nat.le_max_left ..)
    · exact Nat.le_trans (hb t ht) (Nat.le_max_right ..)

end

theorem lowers_unroll (env : Mapping) : ∀ s : Stmt, Returns (unroll env s) (Lowers s)
  | .assign .. | .sample .. | .branch .. => by
    refine Returns.pure ⟨fun _ => ?_, fun h => absurd rfl h⟩
    simp [heights, height_substitute]
  | .loop i lower upper body l => by
    unfold unroll
    refine (Returns.trivial _).bind fun bounds _ => ?_
    cases bounds with
    | none =>
      refine Returns.pure ⟨fun _ => ?_, fun h => absurd rfl h⟩
      simp [heights, height_substitute]
    | some ab =>
      refine (Returns.mapM (fun k => unrollAll_height_le _ body) _).bind fun turns h => ?_
      refine Returns.pure ⟨fun h => absurd h (Nat.succ_ne_zero _), fun _ t ht => ?_⟩
      obtain ⟨r, hr, ht⟩ := List.mem_flatMap.1 ht
      exact Nat.lt_succ_of_le (h r hr t ht)

/-- Unrolling lets the heights of the statements descend. -/
theorem heights_unrollAll (env : Mapping) :
    ∀ ss : List Stmt, Returns (unrollAll env ss) (LowersAll ss)
  | [] => Returns.pure lowersAll_nil
  | s :: rest => by
    unfold unrollAll
    refine (lowers_unroll env s).bind fun a ha => ?_
    exact (heights_unrollAll env rest).bind fun b hb => Returns.pure (ha.append hb)

end PlateModel
