import PlateModel.Expansion.Descent
import PlateModel.State.Basic

/-!
# Deciding conditionals

A conditional whose guard comes to a truth value is replaced by its body, or by nothing; the
conditionals of the body follow at once. A conditional whose guard is not a constant yet stays as it
is.

* `decideAll`: some statements with their conditionals decided, and how many that were.
* `heights_decideAll`: deciding lets the heights of the statements descend.
-/

namespace PlateModel

/-- The truth value that a guard comes to, if it comes to a constant. -/
def guardValue (condition : Expr) (l : Option Location) : Compiling (Option Bool) := do
  let outcome ← Compiling.unlessUnresolved <| Compiling.refer (·.resolve condition)
  match outcome with
  | .error _ => return none
  | .ok o =>
    match o.number? with
    | none => return none
    | some (.truth b) => return some b
    | some n =>
      match n.text? with
      | some value => throw (.model (.guardNotTruth condition value) l)
      | none => throw (.evaluation .unsuitableValue)

mutual

/-- A statement with its conditionals decided. -/
def decideIn : Stmt → Compiling (List Stmt × Nat)
  | .branch condition body l => do
    match ← guardValue condition l with
    | none => return ([.branch condition body l], 0)
    | some false => return ([], 1)
    | some true =>
      let (ss, n) ← decideAll body
      return (ss, n + 1)
  | s => return ([s], 0)

/-- Some statements with their conditionals decided, and how many that were. -/
def decideAll : List Stmt → Compiling (List Stmt × Nat)
  | [] => return ([], 0)
  | s :: rest => do
    let (ss, m) ← decideIn s
    let (ts, n) ← decideAll rest
    return (ss ++ ts, m + n)

end

/-! ## Heights -/

open Compiling Stmt

mutual

theorem decideIn_height_le :
    ∀ s : Stmt, Returns (decideIn s) fun r => ∀ t ∈ r.1, t.height ≤ s.height
  | .assign .. | .sample .. | .loop .. => Returns.pure (by simp)
  | .branch condition body l => by
    unfold decideIn
    refine (Returns.trivial _).bind fun guard _ => ?_
    match guard with
    | none => exact Returns.pure (by simp)
    | some false => exact Returns.pure (by simp)
    | some true =>
      refine (decideAll_height_le body).bind fun r h => Returns.pure fun t ht => ?_
      exact Nat.le_succ_of_le (h t ht)

theorem decideAll_height_le :
    ∀ ss : List Stmt, Returns (decideAll ss) fun r => ∀ t ∈ r.1, t.height ≤ maxHeight ss
  | [] => Returns.pure (by simp)
  | s :: rest => by
    unfold decideAll
    refine (decideIn_height_le s).bind fun a ha => ?_
    refine (decideAll_height_le rest).bind fun b hb => Returns.pure fun t ht => ?_
    rcases List.mem_append.1 ht with ht | ht
    · exact Nat.le_trans (ha t ht) (Nat.le_max_left ..)
    · exact Nat.le_trans (hb t ht) (Nat.le_max_right ..)

end

theorem lowers_decideIn : ∀ s : Stmt, Returns (decideIn s) (Lowers s)
  | .assign .. | .sample .. | .loop .. => Returns.pure ⟨fun _ => rfl, fun h => absurd rfl h⟩
  | .branch condition body l => by
    unfold decideIn
    refine (Returns.trivial _).bind fun guard _ => ?_
    match guard with
    | none => exact Returns.pure ⟨fun _ => rfl, fun h => absurd rfl h⟩
    | some false => exact Returns.pure ⟨fun h => absurd h Nat.one_ne_zero, fun _ => by simp⟩
    | some true =>
      refine (decideAll_height_le body).bind fun r h => Returns.pure ?_
      exact ⟨fun h => absurd h (Nat.succ_ne_zero _), fun _ t ht => Nat.lt_succ_of_le (h t ht)⟩

/-- Deciding conditionals lets the heights of the statements descend. -/
theorem heights_decideAll : ∀ ss : List Stmt, Returns (decideAll ss) (LowersAll ss)
  | [] => Returns.pure lowersAll_nil
  | s :: rest => by
    unfold decideAll
    refine (lowers_decideIn s).bind fun a ha => ?_
    exact (heights_decideAll rest).bind fun b hb => Returns.pure (ha.append hb)

end PlateModel
