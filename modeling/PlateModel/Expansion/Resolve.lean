import PlateModel.Expansion.Absorption
import PlateModel.Expansion.Conditionals
import PlateModel.Expansion.Unroll

/-!
# Structural resolution

Structural resolution turns a program with loops and conditionals into definitions of single nodes,
and these into rules. In each round it unrolls loops; if there are none to unroll, it decides
conditionals; if there are none to decide, it absorbs logical definitions. A round that adds a rule
is followed by another, since the rule may decide bounds, guards or indices. Stochastic definitions
are absorbed at the end. Whatever is left is a fault.

* `Resolution.run`: the rounds; they end, because in each of them the heights of the statements
  descend.
* `Program.resolve`: the definitions of a program in the order in which they were absorbed.
-/

namespace PlateModel

/-- How much has been done. -/
structure Tally where
  loopsUnrolled : Nat
  conditionalsDecided : Nat
  logicalAdded : Nat
  stochasticAdded : Nat
  deriving Repr, DecidableEq, Inhabited

/-- Statements that are being resolved. -/
structure Resolution where
  /-- What is left, in order. -/
  remaining : List Stmt
  /-- The definitions that have become rules, in the order in which they did. -/
  absorbed : List Stmt
  /-- What keeps a definition from being absorbed. -/
  postponed : List (Stmt × Fault)
  tally : Tally

namespace Resolution

/-- The statements before anything has been done. -/
def start (ss : List Stmt) : Resolution := ⟨ss, [], [], ⟨0, 0, 0, 0⟩⟩

/-- Notes what became of a statement. -/
def note (postponed : List (Stmt × Fault)) : Stmt × Absorption → List (Stmt × Fault)
  | (_, .skipped) => postponed
  | (s, .postponed why) => (s, why) :: postponed
  | (s, .absorbed _) => postponed.filter fun (t, _) => !s.same t

/-- Whether a statement is still there. -/
def isLeft : Stmt × Absorption → Bool
  | (_, .absorbed _) => false
  | _ => true

/-- Whether a statement has added a rule. -/
def isNew : Stmt × Absorption → Bool
  | (_, .absorbed new) => new
  | _ => false

/-- What is left after some statements may have been absorbed. -/
def record (w : Resolution) (results : List (Stmt × Absorption)) : Resolution :=
  { w with
    remaining := (results.filter isLeft).map (·.1)
    absorbed := w.absorbed ++ (results.filter (!isLeft ·)).map (·.1)
    postponed := results.foldl note w.postponed }

/-- Results of absorbing what is left. -/
def attempt (f : Stmt → Compiling Absorption) (w : Resolution) :
    Compiling (List (Stmt × Absorption)) := do
  return w.remaining.zip (← w.remaining.mapM f)

theorem attempt_fst (f : Stmt → Compiling Absorption) (w : Resolution) :
    Compiling.Returns (w.attempt f) fun results => results.map (·.1) = w.remaining := by
  unfold attempt
  refine (Compiling.Returns.mapM_length w.remaining).bind fun as h => Compiling.Returns.pure ?_
  exact List.map_fst_zip (Nat.le_of_eq h.symm)

theorem exists_absorbed {results : List (Stmt × Absorption)} (h : results.countP isNew ≠ 0) :
    ∃ x ∈ results, isLeft x = false := by
  obtain ⟨x, hx, hn⟩ := List.countP_pos_iff.1 (Nat.pos_of_ne_zero h)
  refine ⟨x, hx, ?_⟩
  match x, hn with
  | (_, .absorbed _), _ => rfl

/-- Unrolls the loops that are left, and counts them. -/
def unrollLoops (w : Resolution) : Compiling (Resolution × Nat) := do
  let (remaining, n) ← unrollAll [] w.remaining
  return ({ w with remaining, tally.loopsUnrolled := w.tally.loopsUnrolled + n }, n)

/-- Decides the conditionals that are left, and counts them. -/
def decideConditionals (w : Resolution) : Compiling (Resolution × Nat) := do
  let (remaining, n) ← decideAll w.remaining
  return ({ w with remaining, tally.conditionalsDecided := w.tally.conditionalsDecided + n }, n)

/-- Absorbs the logical definitions that are left, and counts the new rules. -/
def absorbDefinitions (w : Resolution) : Compiling (Resolution × Nat) := do
  w.remaining.forM registerTarget
  let results ← w.attempt absorbLogical
  let n := results.countP isNew
  let w := { w with postponed := [] }.record results
  return ({ w with tally.logicalAdded := w.tally.logicalAdded + n }, n)

/-- One round, and how much it has changed. -/
def round (w : Resolution) : Compiling (Resolution × Nat) := do
  let (unrolled, n) ← w.unrollLoops
  if n ≠ 0 then return (unrolled, n)
  let (decided, n) ← w.decideConditionals
  if n ≠ 0 then return (decided, n)
  w.absorbDefinitions

/-- The heights of the statements descend unless nothing has changed. -/
def Progresses (w : Resolution) (r : Resolution × Nat) : Prop :=
  r.2 ≠ 0 → Below (Stmt.heights r.1.remaining) (Stmt.heights w.remaining)

theorem unrollLoops_progresses (w : Resolution) :
    Compiling.Returns w.unrollLoops w.Progresses :=
  (heights_unrollAll [] w.remaining).bind fun _ h => Compiling.Returns.pure h.2

theorem decideConditionals_progresses (w : Resolution) :
    Compiling.Returns w.decideConditionals w.Progresses :=
  (heights_decideAll w.remaining).bind fun _ h => Compiling.Returns.pure h.2

theorem absorbDefinitions_progresses (w : Resolution) :
    Compiling.Returns w.absorbDefinitions w.Progresses := by
  refine (Compiling.Returns.trivial _).bind fun _ _ => ?_
  refine (attempt_fst absorbLogical w).bind fun results hr => Compiling.Returns.pure fun h => ?_
  have below := below_filter isLeft (·.1) results (exists_absorbed h)
  rwa [hr] at below

/-- In a round that changes anything the heights of the statements descend. -/
theorem round_progresses (w : Resolution) : Compiling.Returns w.round w.Progresses := by
  refine w.unrollLoops_progresses.bind fun a ha => ?_
  dsimp only
  split
  · exact Compiling.Returns.pure ha
  · refine w.decideConditionals_progresses.bind fun b hb => ?_
    split
    · exact Compiling.Returns.pure hb
    · exact w.absorbDefinitions_progresses

/-- Rounds until nothing changes. -/
def run (w : Resolution) : Compiling Resolution := do
  let ⟨(next, changes), descends⟩ ← w.round.attach w.round_progresses
  if changed : changes ≠ 0 then
    have := descends changed
    run next
  else return next
termination_by WellFounded.wrap Below.wf (Stmt.heights w.remaining)
decreasing_by assumption

/-- What keeps a definition from being absorbed. -/
def obstacle? (w : Resolution) (s : Stmt) : Option Fault :=
  (w.postponed.find? fun (t, _) => s.same t).map (·.2)

/-- Faults of the statements that are left: loops and conditionals come before definitions. -/
def checkDone (w : Resolution) : Except Fault Unit :=
  match w.remaining.find? (!·.isFlat) with
  | some s => .error (.model (.stuck s) s.location)
  | none =>
    match w.remaining.findSome? w.obstacle? with
    | some why => .error why
    | none => .ok ()

end Resolution

/-- The definitions that a program comes to, and how much was done for that. -/
def Program.resolve (p : Program) : Compiling (Program × Tally) := do
  let w ← (Resolution.start p.statements).run
  let results ← w.attempt absorbStochastic
  let w := w.record results
  w.checkDone
  let tally := { w.tally with stochasticAdded := results.countP Resolution.isNew }
  return ({ p with statements := w.absorbed }, tally)

end PlateModel
