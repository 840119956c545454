import Mathlib.Order.WellFounded
import PlateModel.Expansion.Resolve

/-!
# Resolution in small steps

Resolution can be read as a machine. It scans a list of statements for loops; one whose bounds come
to integers is replaced by its turns in the list itself, and the scan goes on at their first
statement. If no loop was replaced, it scans for conditionals in the same way; if none of these was
replaced either, it makes the targets of definitions known and absorbs logical definitions one after
another. If that has added a rule, it starts again, else it absorbs the stochastic definitions and
ends.

The machine does not depend on how bounds and guards are evaluated and what absorbing does to the
state: it ends whatever the answers to these questions are. A statement that is put in the place of
another one is lower than that. So either the heights of the statements descend, or they stay and
the machine comes nearer to its end: a scan that has replaced anything comes to a scan that has not,
that comes to the next phase, and within each phase there are fewer statements to go through.

* `Resolution.Oracle`: the answers to what resolution asks of the state.
* `Oracle.step`, `Oracle.run`: a step of the machine, and up to so many of them.
* `Oracle.step_nearer`: each step comes nearer to the end.
* `Oracle.run_ends`: the machine ends, whatever the answers.
-/

namespace PlateModel

open Compiling

/-- What a program comes to when stochastic definitions have been absorbed. -/
def Program.finish (p : Program) (w : Resolution) (results : List (Stmt × Absorption)) :
    Except Fault (Program × Tally) := do
  let w := w.record results
  w.checkDone
  let tally := { w.tally with stochasticAdded := results.countP Resolution.isNew }
  return ({ p with statements := w.absorbed }, tally)

namespace Resolution

/-! ## Points -/

/-- What resolution asks of the state. -/
structure Oracle where
  /-- The bounds of a loop, if they are decided. -/
  bounds : Expr → Expr → Option Location → Compiling (Option (Int × Int))
  /-- The value of a guard, if it is decided. -/
  guard : Expr → Option Location → Compiling (Option Bool)
  /-- Makes the target of a definition known. -/
  register : Stmt → Compiling Unit
  logical : Stmt → Compiling Absorption
  stochastic : Stmt → Compiling Absorption

/-- The statements that are replaced in a scan. -/
inductive Scan
  | loops
  | conditionals

/-- Where resolution is. -/
inductive Point
  /-- In a scan, between the statements before and after the position, with the number of statements
  that have been replaced. -/
  | scanning (kind : Scan) (w : Resolution) (before after : List Stmt) (n : Nat)
  /-- Making the targets of definitions known, with the statements to go through. -/
  | registering (w : Resolution) (after : List Stmt)
  /-- Absorbing logical definitions, with what came of those before the position. -/
  | absorbing (w : Resolution) (results : List (Stmt × Absorption)) (after : List Stmt)
  /-- Absorbing stochastic definitions. -/
  | sampling (w : Resolution) (results : List (Stmt × Absorption)) (after : List Stmt)

namespace Point

/-- At the first statement, to look for loops. -/
def first (w : Resolution) : Point := scanning .loops w [] w.remaining 0

/-- The point after a scan that has replaced so many statements. -/
def afterScan (w : Resolution) (n : Nat) : Scan → Point
  | .loops => if n ≠ 0 then first w else scanning .conditionals w [] w.remaining 0
  | .conditionals => if n ≠ 0 then first w else registering w w.remaining

/-- The point after logical definitions were absorbed and have added so many rules. -/
def afterRound (w : Resolution) (n : Nat) : Point :=
  if n ≠ 0 then first w else sampling w [] w.remaining

end Point

/-- What is left after a scan. -/
def scanned (w : Resolution) (statements : List Stmt) (n : Nat) : Scan → Resolution
  | .loops => { w with
      remaining := statements, tally.loopsUnrolled := w.tally.loopsUnrolled + n }
  | .conditionals => { w with
      remaining := statements, tally.conditionalsDecided := w.tally.conditionalsDecided + n }

/-- What is left after logical definitions were absorbed. -/
def afterAbsorbing (w : Resolution) (results : List (Stmt × Absorption)) : Resolution :=
  let w := { w with postponed := [] }.record results
  { w with tally.logicalAdded := w.tally.logicalAdded + results.countP isNew }

/-! ## Steps -/

namespace Oracle

variable (O : Oracle) (p : Program)

/-- The statements in the place of a statement, if it is one to replace and that is decided. -/
def replacement : Scan → Stmt → Compiling (Option (List Stmt))
  | .loops, .loop i lower upper body l => do
    match ← O.bounds lower upper l with
    | none => return none
    | some (a, b) =>
      return some ((integers a b).flatMap fun k =>
        Stmt.substituteAll [(i, .ofNumber (.int k))] body)
  | .conditionals, .branch condition body l => do
    match ← O.guard condition l with
    | none => return none
    | some true => return some body
    | some false => return some []
  | _, _ => return none

/-- One step: from a point to another one, or to the end. -/
def step : Point → Compiling (Point ⊕ (Program × Tally))
  | .scanning kind w before (s :: after) n => do
    match ← O.replacement kind s with
    | none => return .inl (.scanning kind w (before ++ [s]) after n)
    | some ss => return .inl (.scanning kind w before (ss ++ after) (n + 1))
  | .scanning kind w before [] n => return .inl (.afterScan (w.scanned before n kind) n kind)
  | .registering w (s :: after) => do
    O.register s
    return .inl (.registering w after)
  | .registering w [] => return .inl (.absorbing w [] w.remaining)
  | .absorbing w results (s :: after) => do
    let a ← O.logical s
    return .inl (.absorbing w (results ++ [(s, a)]) after)
  | .absorbing w results [] =>
    return .inl (.afterRound (w.afterAbsorbing results) (results.countP isNew))
  | .sampling w results (s :: after) => do
    let a ← O.stochastic s
    return .inl (.sampling w (results ++ [(s, a)]) after)
  | .sampling w results [] => do
    let r ← p.finish w results
    return .inr r

/-- What comes of at most so many steps, if they come to an end. -/
def run : Nat → Point → State → Option (Except Fault (Program × Tally) × State)
  | 0, _, _ => none
  | n + 1, x, s =>
    match O.step p x s with
    | (.ok (.inl y), t) => run n y t
    | (.ok (.inr r), t) => some (.ok r, t)
    | (.error e, t) => some (.error e, t)

end Oracle

/-! ## Nearer to the end -/

namespace Point

/-- All statements that there are at a point. -/
def statements : Point → List Stmt
  | scanning _ _ before after _ => before ++ after
  | registering w _ => w.remaining
  | absorbing _ results after | sampling _ results after => results.map (·.1) ++ after

/-- How many phases there are to come as long as nothing is replaced or absorbed. -/
def phases : Point → Nat
  | scanning _ _ _ _ (_ + 1) => 5
  | scanning .loops _ _ _ 0 => 4
  | scanning .conditionals _ _ _ 0 => 3
  | registering .. => 2
  | absorbing .. => 1
  | sampling .. => 0

/-- How many statements there are to go through in a phase. -/
def ahead : Point → Nat
  | scanning _ _ _ after _ | registering _ after | absorbing _ _ after | sampling _ _ after =>
    after.length

/-- The heights of the statements descend, or they stay and there are fewer phases to come, or the
phase stays and there are fewer statements to go through. -/
def Nearer (y x : Point) : Prop :=
  Prod.Lex Below (Prod.Lex (· < ·) (· < ·))
    (Stmt.heights y.statements, y.phases, y.ahead) (Stmt.heights x.statements, x.phases, x.ahead)

theorem nearer_wf : WellFounded Nearer :=
  InvImage.wf (fun x : Point => (Stmt.heights x.statements, x.phases, x.ahead))
    (Below.wf.prod_lex (Nat.lt_wfRel.wf.prod_lex Nat.lt_wfRel.wf))

theorem statements_afterRound (w : Resolution) (n : Nat) :
    (afterRound w n).statements = w.remaining := by
  cases n <;> rfl

variable {x y : Point}

theorem Nearer.of_below (h : Below (Stmt.heights y.statements) (Stmt.heights x.statements)) :
    Nearer y x := .left _ _ h

theorem Nearer.of_phases (hs : y.statements = x.statements) (h : y.phases < x.phases) :
    Nearer y x := by
  rw [Nearer, hs]
  exact .right _ (.left _ _ h)

theorem Nearer.of_ahead (hs : y.statements = x.statements) (hp : y.phases = x.phases)
    (h : y.ahead < x.ahead) : Nearer y x := by
  rw [Nearer, hs, hp]
  exact .right _ (.right _ h)

end Point

namespace Oracle

variable {O : Oracle} {p : Program}

/-- What is put in the place of a statement is lower. -/
theorem replacement_lower (kind : Scan) (s : Stmt) :
    Returns (O.replacement kind s) fun r => ∀ ss ∈ r, ∀ t ∈ ss, t.height < s.height := by
  match kind, s with
  | .loops, .loop i lower upper body l =>
    refine (Returns.trivial _).bind fun bounds _ => ?_
    rcases bounds with _ | ⟨a, b⟩
    · exact Returns.pure nofun
    · refine Returns.pure fun ss hss t ht => ?_
      cases hss
      obtain ⟨k, -, ht⟩ := List.mem_flatMap.1 ht
      refine Nat.lt_succ_of_le ?_
      rw [← Stmt.maxHeight_substituteAll [(i, .ofNumber (.int k))] body]
      exact Stmt.height_le_maxHeight ht
  | .conditionals, .branch condition body l =>
    refine (Returns.trivial _).bind fun guard _ => ?_
    rcases guard with _ | _ | _
    · exact Returns.pure nofun
    · refine Returns.pure fun ss hss t ht => ?_
      cases hss
      cases ht
    · refine Returns.pure fun ss hss t ht => ?_
      cases hss
      exact Nat.lt_succ_of_le (Stmt.height_le_maxHeight ht)
  | .loops, .assign .. | .loops, .sample .. | .loops, .branch ..
  | .conditionals, .assign .. | .conditionals, .sample .. | .conditionals, .loop .. =>
    exact Returns.pure nofun

/-- Putting lower statements in the place of one lets the heights descend. -/
theorem below_replace (before after : List Stmt) {s : Stmt} {ss : List Stmt}
    (h : ∀ t ∈ ss, t.height < s.height) :
    Below (Stmt.heights (before ++ (ss ++ after))) (Stmt.heights (before ++ s :: after)) := by
  have lower : ∀ k ∈ Stmt.heights ss, k < s.height := by
    intro k hk
    obtain ⟨t, ht, rfl⟩ := List.mem_map.1 hk
    exact h t ht
  have replaced := (Below.replace (Stmt.heights after) lower).append_left (Stmt.heights before)
  simpa only [Stmt.heights, List.map_append, List.map_cons] using replaced

/-- If nothing is absorbed, everything is left. -/
theorem filter_isLeft {results : List (Stmt × Absorption)}
    (h : ¬ ∃ x ∈ results, isLeft x = false) : results.filter isLeft = results := by
  refine List.filter_eq_self.2 fun x hx => ?_
  cases hleft : isLeft x with
  | true => rfl
  | false => exact absurd ⟨x, hx, hleft⟩ h

/-- Each step comes nearer to the end. -/
theorem step_nearer : ∀ x : Point, Returns (O.step p x) fun r => ∀ y, r = .inl y → y.Nearer x
  | .scanning kind w before (s :: after) n => by
    refine (replacement_lower kind s).bind fun r hr => ?_
    rcases r with _ | ss
    · refine Returns.pure fun y hy => ?_
      cases hy
      refine .of_ahead ?_ (by cases kind <;> cases n <;> rfl) (Nat.lt_succ_self _)
      exact List.append_assoc ..
    · refine Returns.pure fun y hy => ?_
      cases hy
      exact .of_below (below_replace before after (hr ss rfl))
  | .scanning kind w before [] n => by
    refine Returns.pure fun y hy => ?_
    cases hy
    have hs : (Point.scanning kind w before [] n).statements = before := List.append_nil _
    cases kind <;> cases n <;> refine .of_phases hs.symm ?_ <;>
      simp [Point.afterScan, Point.first, Point.phases]
  | .registering w (s :: after) => by
    refine (Returns.trivial _).bind fun _ _ => Returns.pure fun y hy => ?_
    cases hy
    exact .of_ahead rfl rfl (Nat.lt_succ_self _)
  | .registering w [] => by
    refine Returns.pure fun y hy => ?_
    cases hy
    exact .of_phases rfl Nat.one_lt_two
  | .absorbing w results (s :: after) => by
    refine (Returns.trivial _).bind fun a _ => Returns.pure fun y hy => ?_
    cases hy
    refine .of_ahead ?_ rfl (Nat.lt_succ_self _)
    simp [Point.statements]
  | .absorbing w results [] => by
    refine Returns.pure fun y hy => ?_
    cases hy
    have hs : (Point.absorbing w results []).statements = results.map (·.1) := List.append_nil _
    by_cases h : ∃ x ∈ results, isLeft x = false
    · refine .of_below ?_
      rw [Point.statements_afterRound, hs]
      exact below_filter isLeft (·.1) results h
    · -- nothing was absorbed, so no rule is new
      have hn : results.countP isNew = 0 :=
        Decidable.byContradiction fun hn => h (exists_absorbed hn)
      refine .of_phases ?_ ?_
      · rw [Point.statements_afterRound, hs]
        exact congrArg (List.map _) (filter_isLeft h)
      · rw [hn]
        exact Nat.one_pos
  | .sampling w results (s :: after) => by
    refine (Returns.trivial _).bind fun a _ => Returns.pure fun y hy => ?_
    cases hy
    refine .of_ahead ?_ rfl (Nat.lt_succ_self _)
    simp [Point.statements]
  | .sampling w results [] => by
    refine (Returns.trivial _).bind fun r _ => Returns.pure fun y hy => ?_
    cases hy

/-- The machine ends, whatever the answers to what it asks. -/
theorem run_ends (x : Point) (s : State) : ∃ n r, O.run p n x s = some r := by
  induction x using Point.nearer_wf.induction generalizing s with
  | _ x ih =>
    rcases hstep : O.step p x s with ⟨e | y | r, t⟩
    · exact ⟨1, (.error e, t), by rw [run, hstep]⟩
    · obtain ⟨n, r, hr⟩ := ih y (step_nearer x s _ t hstep y rfl) t
      exact ⟨n + 1, r, by rw [run, hstep]; exact hr⟩
    · exact ⟨1, (.ok r, t), by rw [run, hstep]⟩

end Oracle

end Resolution

end PlateModel
