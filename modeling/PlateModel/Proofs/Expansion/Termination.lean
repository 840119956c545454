import PlateModel.Proofs.Expansion.Rounds
import PlateModel.Proofs.Expansion.Steps
import PlateModel.Proofs.Resolution.CallDepth

/-!
# Resolution ends

The machine that resolves a program in small steps ends whatever it is told about bounds, guards and
definitions. If it is told what the state says, it ends with what the resolution of the program
gives: a scan that goes on at the first statement of what it has put in does what unrolling the
nested loops of a loop at once does.

* `Oracle.standard`: the answers that the state gives.
* `Oracle.Does`: from a point on, the machine does what a computation does and comes to a point that
  depends on the result.
* `Oracle.does_unrollAll`, `Oracle.does_decideAll`: scans do what unrolling and deciding do.
* `Program.resolve_ends`: resolution ends, by returning or by failing.
-/

namespace PlateModel

open Compiling

namespace Resolution.Oracle

/-- The answers that the state gives. -/
def standard : Oracle where
  bounds := loopBounds
  guard := guardValue
  register := registerTarget
  logical := absorbLogical
  stochastic := absorbStochastic

/-! ## What the machine does -/

variable {O : Oracle} {p : Program} {α β : Type}

/-- From a point the machine comes to a result. -/
def Reaches (O : Oracle) (p : Program) (x : Point) (s : State)
    (r : Except Fault (Program × Tally) × State) : Prop := ∃ n, O.run p n x s = some r

/-- From a point on, the machine does what a computation does: where this fails it fails too, and
where it gives a result the machine goes on at the point for that. -/
def Does (O : Oracle) (p : Program) (x : Point) (m : Compiling α) (next : α → Point) : Prop :=
  ∀ s r, (match m s with
    | (.ok a, t) => O.Reaches p (next a) t r
    | (.error e, t) => r = (.error e, t)) → O.Reaches p x s r

namespace Does

variable {x : Point} {m : Compiling α} {next : α → Point}

theorem pure {a : α} (h : next a = x) : O.Does p x (pure a) next := fun _ _ hr => h ▸ hr

/-- A step does the computation that it begins with. -/
theorem step (h : O.step p x = (do return .inl (next (← m)))) : O.Does p x m next := by
  intro s r hr
  rcases hm : m s with ⟨e | a, t⟩
  · rw [hm] at hr
    refine ⟨1, ?_⟩
    rw [run, h, run_bind_of_error hm, hr]
  · rw [hm] at hr
    obtain ⟨n, hn⟩ := hr
    refine ⟨n + 1, ?_⟩
    rw [run, h, run_bind_of_ok hm]
    exact hn

/-- One computation after another. What is known of the results of the first one may be used for the
second. -/
theorem bind_of_returns {P : α → Prop} {f : α → Compiling β} {next' : β → Point}
    (hm : O.Does p x m next) (hP : Returns m P)
    (hf : ∀ a, P a → O.Does p (next a) (f a) next') : O.Does p x (m >>= f) next' := by
  intro s r hr
  refine hm s r ?_
  rcases hs : m s with ⟨e | a, t⟩
  · rw [run_bind_of_error hs] at hr
    exact hr
  · rw [run_bind_of_ok hs] at hr
    exact hf a (hP s a t hs) t r hr

theorem bind {f : α → Compiling β} {next' : β → Point} (hm : O.Does p x m next)
    (hf : ∀ a, O.Does p (next a) (f a) next') : O.Does p x (m >>= f) next' :=
  hm.bind_of_returns (Returns.trivial m) fun a _ => hf a

/-- A step that does not ask anything. -/
theorem after {y : Point} (h : O.step p x = Pure.pure (.inl y)) (hy : O.Does p y m next) :
    O.Does p x m next := by
  intro s r hr
  obtain ⟨n, hn⟩ := hy s r hr
  refine ⟨n + 1, ?_⟩
  rw [run, h]
  exact hn

end Does

/-! ## Scans -/

variable {w : Resolution} {before after : List Stmt} {n : Nat}

theorem does_bounds {i : String} {lower upper : Expr} {body : List Stmt} {l : Option Location} :
    standard.Does p (.scanning .loops w before (.loop i lower upper body l :: after) n)
      (loopBounds lower upper l) fun
        | none => .scanning .loops w (before ++ [.loop i lower upper body l]) after n
        | some (a, b) => .scanning .loops w before ((integers a b).flatMap (fun k =>
            Stmt.substituteAll [(i, .ofNumber (.int k))] body) ++ after) (n + 1) := by
  refine .step ?_
  simp only [step, replacement, bind_assoc]
  refine congrArg _ (funext fun bounds => ?_)
  rcases bounds with _ | ⟨a, b⟩ <;> rfl

theorem does_guard {condition : Expr} {body : List Stmt} {l : Option Location} :
    standard.Does p (.scanning .conditionals w before (.branch condition body l :: after) n)
      (guardValue condition l) fun
        | none => .scanning .conditionals w (before ++ [.branch condition body l]) after n
        | some true => .scanning .conditionals w before (body ++ after) (n + 1)
        | some false => .scanning .conditionals w before after (n + 1) := by
  refine .step ?_
  simp only [step, replacement, bind_assoc]
  refine congrArg _ (funext fun guard => ?_)
  rcases guard with _ | _ | _ <;> rfl

/-- The turns of a loop and their loops are counted from where the count was before. -/
theorem foldl_count (turns : List (List Stmt × Nat)) (k : Nat) :
    turns.foldl (fun n turn => n + turn.2) k = k + turns.foldl (fun n turn => n + turn.2) 0 := by
  induction turns generalizing k with
  | nil => rfl
  | cons turn turns ih => rw [List.foldl_cons, List.foldl_cons, ih, ih (0 + turn.2)]; omega

/-- The turns of a loop, one after another. -/
theorem does_turns {f : Int → Compiling (List Stmt × Nat)} {turn : Int → List Stmt}
    (hf : ∀ k before after n, standard.Does p (.scanning .loops w before (turn k ++ after) n) (f k)
      fun r => .scanning .loops w (before ++ r.1) after (n + r.2)) :
    ∀ (ks : List Int) (before after : List Stmt) (n : Nat),
      standard.Does p (.scanning .loops w before (ks.flatMap turn ++ after) n) (ks.mapM f)
        fun turns => .scanning .loops w (before ++ turns.flatMap (·.1)) after
          (turns.foldl (fun n turn => n + turn.2) n)
  | [], before, after, n => by
    rw [List.mapM_nil]
    exact .pure (by simp only [List.flatMap_nil, List.append_nil, List.nil_append, List.foldl_nil])
  | k :: ks, before, after, n => by
    rw [List.mapM_cons, List.flatMap_cons, List.append_assoc]
    refine (hf k before _ n).bind fun r => (does_turns hf ks _ after _).bind fun rs => .pure ?_
    simp only [List.flatMap_cons, List.append_assoc, List.foldl_cons]

mutual

/-- A scan that comes to a statement goes on behind what unrolling puts in its place. -/
theorem does_unroll {env : Mapping} (henv : env.Literal) : ∀ (s : Stmt) (before after : List Stmt)
    (n : Nat), standard.Does p (.scanning .loops w before (s.substitute env :: after) n)
      (unroll env s) fun r => .scanning .loops w (before ++ r.1) after (n + r.2)
  | .assign .., before, after, n | .sample .., before, after, n | .branch .., before, after, n =>
    .after rfl (.pure rfl)
  | .loop i lower upper body l, before, after, n => by
    unfold unroll
    refine does_bounds.bind fun bounds => ?_
    rcases bounds with _ | ⟨a, b⟩
    · exact .pure rfl
    · simp only [Stmt.substituteAll_turn henv]
      refine (does_turns (fun k => does_unrollAll (henv.cons i (.int k)) body) (integers a b) before
        after (n + 1)).bind fun turns => .pure ?_
      rw [foldl_count turns (n + 1), Nat.add_assoc, Nat.add_comm 1]

/-- A scan goes on behind what unrolling puts in the place of some statements. -/
theorem does_unrollAll {env : Mapping} (henv : env.Literal) : ∀ (ss before after : List Stmt)
    (n : Nat), standard.Does p (.scanning .loops w before (Stmt.substituteAll env ss ++ after) n)
      (unrollAll env ss) fun r => .scanning .loops w (before ++ r.1) after (n + r.2)
  | [], before, after, n => .pure (by rw [List.append_nil]; rfl)
  | s :: rest, before, after, n => by
    unfold unrollAll
    refine (does_unroll henv s before _ n).bind fun us => ?_
    refine (does_unrollAll henv rest _ after _).bind fun vs => .pure ?_
    simp only [List.append_assoc, Nat.add_assoc]

end

mutual

/-- A scan that comes to a statement goes on behind what deciding puts in its place. -/
theorem does_decideIn : ∀ (s : Stmt) (before after : List Stmt) (n : Nat),
    standard.Does p (.scanning .conditionals w before (s :: after) n) (decideIn s)
      fun r => .scanning .conditionals w (before ++ r.1) after (n + r.2)
  | .assign .., before, after, n | .sample .., before, after, n | .loop .., before, after, n =>
    .after rfl (.pure rfl)
  | .branch condition body l, before, after, n => by
    unfold decideIn
    refine does_guard.bind fun guard => ?_
    rcases guard with _ | _ | _
    · exact .pure rfl
    · exact .pure (by rw [List.append_nil])
    · refine (does_decideAll body before after (n + 1)).bind fun r => .pure ?_
      rw [Nat.add_assoc, Nat.add_comm 1]

/-- A scan goes on behind what deciding puts in the place of some statements. -/
theorem does_decideAll : ∀ (ss before after : List Stmt) (n : Nat),
    standard.Does p (.scanning .conditionals w before (ss ++ after) n) (decideAll ss)
      fun r => .scanning .conditionals w (before ++ r.1) after (n + r.2)
  | [], before, after, n => .pure (by rw [List.append_nil]; rfl)
  | s :: rest, before, after, n => by
    unfold decideAll
    refine (does_decideIn s before _ n).bind fun us => ?_
    refine (does_decideAll rest _ after _).bind fun vs => .pure ?_
    simp only [List.append_assoc, Nat.add_assoc]

end

/-! ## Rounds -/

/-- Going through the statements to do something for each. -/
theorem does_forM {f : Stmt → Compiling Unit} {point : List Stmt → Point}
    (hstep : ∀ s after, O.step p (point (s :: after)) = (do
      f s
      return .inl (point after))) (after : List Stmt) :
    O.Does p (point after) (after.forM f) fun _ => point [] := by
  induction after with
  | nil => exact .pure rfl
  | cons s after ih =>
    rw [List.forM]
    exact (Does.step (hstep s after)).bind fun _ => ih

/-- Going through the statements with what comes of each. -/
theorem does_mapM {f : Stmt → Compiling Absorption}
    {point : List (Stmt × Absorption) → List Stmt → Point}
    (hstep : ∀ results s after, O.step p (point results (s :: after)) = (do
      let a ← f s
      return .inl (point (results ++ [(s, a)]) after))) :
    ∀ after results, O.Does p (point results after) (after.mapM f)
      fun as => point (results ++ after.zip as) []
  | [], results => by
    rw [List.mapM_nil]
    exact .pure (by rw [List.zip_nil_left, List.append_nil])
  | s :: after, results => by
    rw [List.mapM_cons]
    refine (Does.step (hstep results s after)).bind fun a =>
      (does_mapM hstep after _).bind fun as => .pure ?_
    rw [List.zip_cons_cons, List.append_assoc, List.singleton_append]

theorem does_unrollLoops (w : Resolution) :
    standard.Does p (.first w) w.unrollLoops fun r => .afterScan r.1 r.2 .loops := by
  have hscan := does_unrollAll (p := p) (w := w) Mapping.literal_nil w.remaining [] [] 0
  rw [Stmt.substituteAll_nil, List.append_nil] at hscan
  refine hscan.bind fun r => .after rfl (.pure ?_)
  rw [Nat.zero_add]
  rfl

theorem does_decideConditionals (w : Resolution) :
    standard.Does p (.scanning .conditionals w [] w.remaining 0) w.decideConditionals
      fun r => .afterScan r.1 r.2 .conditionals := by
  have hscan := does_decideAll (p := p) (w := w) w.remaining [] [] 0
  rw [List.append_nil] at hscan
  refine hscan.bind fun r => .after rfl (.pure ?_)
  rw [Nat.zero_add]
  rfl

theorem does_absorbDefinitions (w : Resolution) :
    standard.Does p (.registering w w.remaining) w.absorbDefinitions
      fun r => .afterRound r.1 r.2 := by
  refine (does_forM (fun _ _ => rfl) w.remaining).bind fun _ => .after rfl ?_
  rw [attempt, bind_assoc]
  refine (does_mapM (fun _ _ _ => rfl) w.remaining []).bind fun as => .after rfl (.pure rfl)

/-- In a round the machine comes to where it starts again, or to the stochastic definitions. -/
theorem does_round (w : Resolution) :
    standard.Does p (.first w) w.round fun r => .afterRound r.1 r.2 := by
  have again {w' : Resolution} {n : Nat} (hn : n ≠ 0) :
      Point.afterRound w' n = .first w' := if_pos hn
  unfold round
  -- a scan that replaces nothing leaves everything as it was
  refine (does_unrollLoops w).bind_of_returns (P := fun r => r.2 = 0 → r.1 = w) ?_ ?_
  · rintro s ⟨w', n⟩ t h rfl
    exact unrollLoops_eq_zero h
  rintro ⟨w₁, n⟩ h₁
  dsimp only
  split
  · next hn => exact .pure (by rw [again hn, Point.afterScan, if_pos hn])
  next hn =>
  obtain rfl := not_not.1 hn
  obtain rfl := h₁ rfl
  refine (does_decideConditionals w₁).bind_of_returns (P := fun r => r.2 = 0 → r.1 = w₁) ?_ ?_
  · rintro s ⟨w', n⟩ t h rfl
    exact decideConditionals_eq_zero h
  rintro ⟨w₂, n⟩ h₂
  dsimp only
  split
  · next hn => exact .pure (by rw [again hn, Point.afterScan, if_pos hn])
  next hn =>
  obtain rfl := not_not.1 hn
  obtain rfl := h₂ rfl
  exact does_absorbDefinitions w₂

/-- The rounds of a run bring the machine to the stochastic definitions. -/
theorem does_run (w : Resolution) :
    standard.Does p (.first w) w.run fun w' => .sampling w' [] w'.remaining := by
  intro s r hr
  refine does_round w s r ?_
  rcases hround : w.round s with ⟨e | ⟨next, n⟩, t⟩
  · rw [run_of_round_error hround] at hr
    exact hr
  · rw [run_of_round hround] at hr
    have descends := w.round_progresses s (next, n) t hround
    dsimp only
    by_cases hn : n = 0
    · subst hn
      exact hr
    · rw [if_neg hn] at hr
      rw [Point.afterRound, if_pos hn]
      exact does_run next t r hr
termination_by WellFounded.wrap Below.wf (Stmt.heights w.remaining)
decreasing_by exact descends hn

/-- What is left when no more rules can be absorbed, and what has come of the stochastic
definitions. -/
def absorbed (p : Program) : Compiling (Resolution × List (Stmt × Absorption)) := do
  let w ← (start p.statements).run
  return (w, ← w.attempt absorbStochastic)

theorem resolve_eq (p : Program) :
    p.resolve = (do
      let (w, results) ← absorbed p
      p.finish w results) := by
  simp only [Program.resolve, absorbed, bind_assoc, pure_bind]
  refine congrArg _ (funext fun w => congrArg _ (funext fun results => ?_))
  dsimp only [Program.finish]
  cases (w.record results).checkDone <;> rfl

theorem does_absorbed (p : Program) :
    standard.Does p (.first (.start p.statements)) (absorbed p)
      fun r => .sampling r.1 r.2 [] := by
  refine (does_run (.start p.statements)).bind fun w => ?_
  rw [attempt, bind_assoc]
  exact (does_mapM (fun _ _ _ => rfl) w.remaining []).bind fun as => .pure rfl

/-- With the answers that the state gives, the machine ends with what resolution gives. -/
theorem reaches_resolve (p : Program) (s : State) :
    standard.Reaches p (.first (.start p.statements)) s (p.resolve s) := by
  refine does_absorbed p s _ ?_
  rw [resolve_eq]
  rcases h : absorbed p s with ⟨e | ⟨w, results⟩, t⟩
  · exact run_bind_of_error h
  · refine ⟨1, ?_⟩
    rw [run_bind_of_ok h, run, step]
    dsimp only
    cases p.finish w results <;> rfl

end Resolution.Oracle

/-- Resolution ends, by returning or by failing. The machine ends whatever it is told about bounds,
guards and definitions, and thus for any operators and functions; told what the state says, it ends
with what resolution gives. And whatever operators and functions come to, the calls by which it is
found out what the state says are nested no deeper than an expression demands. -/
theorem Program.resolve_ends (p : Program) (s : State) :
    (∀ O : Resolution.Oracle, ∃ n r, O.run p n (.first (.start p.statements)) s = some r) ∧
    (∃ n, Resolution.Oracle.standard.run p n (.first (.start p.statements)) s =
      some (p.resolve s)) ∧
    ∀ (table : Table) (d : Definitions) (e : Expr) (k : Nat),
      Calling.Ends (table = Callee.apply) (d.resolveAt table (e.calls + k + 1) e) (d.resolve e) ∧
      Calling.Ends (table = Callee.apply) (d.lowerAt table (e.calls + k) e) (d.lower e) ∧
      Calling.Ends (table = Callee.apply) (d.symbolicAt table (e.calls + k + 1) e)
        (d.symbolic e) := by
  refine ⟨fun _ => Resolution.Oracle.run_ends _ _, Resolution.Oracle.reaches_resolve p s,
    fun table d e k => ⟨?_, ?_, ?_⟩⟩
  · exact Definitions.resolveAt_ends (Nat.succ_le_succ (Nat.le_add_right _ k))
  · exact Definitions.lowerAt_ends (Nat.le_add_right _ k)
  · exact Definitions.symbolicAt_ends (Nat.succ_le_succ (Nat.le_add_right _ k))

end PlateModel
