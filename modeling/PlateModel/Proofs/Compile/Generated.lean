import PlateModel.Proofs.Compile.Invariant
import PlateModel.Proofs.Evaluation.Calls
import PlateModel.Proofs.Evaluation.Sober

/-!
# What generators return

The symbol of a logical rule may come to a number in the final state of a compilation. Then the
parents of its node come to constants, and the number is the value in plain values of the generator
for these. The generator itself need not return it: cells stay cells from one call to the next, so
that two comparisons of cells add up to a truth value and not to two. If the rule is sober, it does
return the number, or a cell with it.

* `State.Gives`: a name comes to a value in a state.
* `Generator.call_eq_ok`: the value of a generator for the values of its parameters.
* `generator_of_gives`: what the generator of a logical rule returns.
* `generator_of_gives_comparing`: a rule that is not sober.
-/

namespace PlateModel

open Compiling

/-! ## What names come to -/

/-- In a state a name comes to a value. -/
def State.Gives (s : State) (x : String) (v : Value) : Prop :=
  s.toDefinitions.resolve (.name x) s.registry = (.ok (.constant v), s.registry)

theorem State.gives_iff {s : State} {x : String} {v : Value} :
    s.Gives x v ↔ s.outcome (.name x) = .ok (.constant v) := by
  have hlower : s.toDefinitions.lower (.name x) s.registry = (.ok (.name x), s.registry) := by
    rw [Definitions.lower]
    rfl
  have hresolve : s.toDefinitions.resolve (.name x) s.registry =
      (orFault (s.outcome (.name x)), s.registry) := by
    rw [Definitions.resolve, run_bind_of_ok hlower, run_lift]
  rw [Gives, hresolve, Prod.mk.injEq, orFault_eq_ok]
  exact and_iff_left rfl

theorem Expr.constant?_ne_cell {e : Expr} {v : Value} (h : e.constant? = .ok (some v))
    (k : CellKind) (c : Value) : v ≠ .cell k c := by
  cases e with
  | literal =>
    cases h
    intro heq
    cases heq
  | array =>
    simp only [constant?] at h
    split at h
    · cases h
    · obtain ⟨t, -, ht⟩ := map_eq_ok.1 h
      cases ht
      intro heq
      cases heq
  | _ => cases h

/-! ## Calling a generator -/

namespace Generator

variable {g : Generator} {values : List Value} {R : String → Value → Prop}

/-- The parameters have the given values, and no other name has one. -/
theorem get?_bind (hg : g.parameters.Nodup) (h : List.Forall₂ R g.parameters values) :
    (∀ y ∈ g.parameters, ∃ v, (g.bind values .empty).get? y = some v ∧ R y v) ∧
      ∀ y v, (g.bind values .empty).get? y = some v → R y v := by
  obtain ⟨hlength, hzip⟩ := List.forall₂_iff_zip.1 h
  have hkeys : (g.parameters.zip values).map (·.1) = g.parameters :=
    List.map_fst_zip (Nat.le_of_eq hlength)
  have hentries : (g.bind values .empty).entries = g.parameters.zip values :=
    Assoc.entries_ofList (by rwa [hkeys])
  have hheld (y : String) (v : Value) (hv : (g.bind values .empty).get? y = some v) : R y v :=
    hzip (hentries ▸ Assoc.mem_of_get? hv)
  refine ⟨fun y hy => ?_, hheld⟩
  have hmem : y ∈ (g.bind values .empty).keys := by rwa [Assoc.keys, hentries, hkeys]
  obtain ⟨v, hv⟩ := Assoc.mem_keys_iff.1 hmem
  exact ⟨v, hv, hheld y v hv⟩

/-- A generator returns the value of its expression for the values of its parameters. -/
theorem call_eq_ok (hg : g.parameters.Nodup) (hlength : g.parameters.length = values.length)
    {w : Value} (h : g.expression.eval (g.bind values .empty).get? = .ok w) :
    g.call values .empty = .ok w := by
  have hbound : List.Forall₂ (fun _ _ => True) g.parameters values :=
    List.forall₂_iff_zip.2 ⟨hlength, fun _ => trivial⟩
  have hgiven (y : String) (hy : y ∈ g.parameters) : (g.bind values .empty).contains y := by
    obtain ⟨v, hv, -⟩ := (get?_bind hg hbound).1 y hy
    exact Assoc.contains_iff.2 ⟨v, hv⟩
  rw [call_of_bound rfl (Nat.le_of_eq hlength.symm) hgiven, h]
  rfl

end Generator

/-! ## Logical nodes -/

namespace State

variable {s : State} {x : String} {rhs : Expr} {v : Value}

/-- The definition of a name with a logical rule is the rule. -/
theorem Consistent.lookup_logical (hs : s.Consistent) (hrule : s.logical.get? x = some rhs) :
    s.mapping.lookup x = some rhs := by
  have hunbound : s.data.get? x = none := by
    refine Option.eq_none_iff_forall_ne_some.2 fun v hv => ?_
    have hlogical := hs.unbound (Assoc.contains_iff.2 ⟨v, hv⟩)
    rw [Assoc.contains_iff.2 ⟨rhs, hrule⟩] at hlogical
    cases hlogical
  rw [Definitions.lookup_mapping, hunbound, hrule]
  rfl

/-- A name with a logical rule has a logical node with the generator of the rule. -/
theorem Describes.logical {ns : Assoc Node} (h : s.Describes ns) (hs : s.Consistent)
    (hrule : s.logical.get? x = some rhs) : ∃ n, ns.get? x = some n ∧ n.kind = .logical ∧
      n.generator.expression = rhs ∧ n.parents = rhs.names.eraseDups := by
  have hcontains : s.logical.contains x := Assoc.contains_iff.2 ⟨rhs, hrule⟩
  have hfree : s.stochastic.contains x = false := hs.kinds hcontains
  obtain ⟨n, hn⟩ := Assoc.mem_keys_iff.1 ((h.mem_keys x).2 (.inr (.inl hcontains)))
  have hnode := h.node hn
  have hstored := hnode.stored
  rw [stored?, Assoc.get?_eq_none hfree, hrule] at hstored
  cases hstored
  exact ⟨n, hn, hnode.logical.2 (by simp [hfree]), rfl, hnode.parents⟩

/-- Where a name comes to a constant, so do the names in its definition, and the constant is the
value of this in plain values. -/
theorem Gives.definition (h : s.Gives x v) (hx : s.mapping.lookup x = some rhs) :
    (∀ y ∈ rhs.names, ∃ w, s.Gives y w) ∧ ∀ env : Environment,
      (∀ y ∈ rhs.names, ∃ w, env y = some w ∧ s.Gives y w) → rhs.evalPlain env = .ok v := by
  have houtcome := gives_iff.1 h
  refine ⟨fun y hy => ?_, fun env henv => ?_⟩
  · obtain ⟨w, hw⟩ := Definitions.outcome_of_mem_names hx houtcome hy
    exact ⟨w, gives_iff.2 hw⟩
  · obtain ⟨c, hc, hv, -⟩ := Definitions.outcome_eq_constant_iff.1 houtcome
    cases hc with
    | name hx' hc =>
      cases hx.symm.trans hx'
      have hholds : env.Holds s.mapping rhs.names := by
        intro y hy c' v' hc' hv'
        obtain ⟨w, hw, hgives⟩ := henv y hy
        obtain ⟨c'', hc'', hw', -⟩ := Definitions.outcome_eq_constant_iff.1 (gives_iff.1 hgives)
        cases hc'.unique hc''
        cases hv'.symm.trans hw'
        exact hw
      obtain ⟨u, hu, heval⟩ := hc.evalPlain hholds
      cases hv.symm.trans hu
      exact heval

theorem Gives.ne_cell (h : s.Gives x v) (k : CellKind) (c : Value) : v ≠ .cell k c := by
  obtain ⟨e, -, hv, -⟩ := Definitions.outcome_eq_constant_iff.1 (gives_iff.1 h)
  exact Expr.constant?_ne_cell hv k c

end State

/-! ## What generators return -/

/-- If the symbol of a logical rule comes to a number in the final state of a compilation, then the
parents of its node come to constants, and for these the value of the rule in plain values is the
number. The generator of the node returns the number, or a single cell with it, if the rule is
sober. It returns the number itself if the rule is a formula and the parents come to numbers. -/
theorem generator_of_gives {p : Program} {data : List (String × Datum)} {c : Compiled} {x : String}
    {rhs : Expr} {v : Number} (h : compile p data = .ok c)
    (hrule : c.state.logical.get? x = some rhs) (hv : c.state.Gives x (.number v)) :
    ∃ n values, c.nodes.get? x = some n ∧ n.kind = .logical ∧ n.generator.expression = rhs ∧
      List.Forall₂ c.state.Gives n.parents values ∧
      rhs.evalPlain (n.generator.bind values .empty).get? = .ok (.number v) ∧
      (rhs.Sober (n.generator.bind values .empty).get? →
        ∃ w, n.generator.call values .empty = .ok w ∧ w.unwrap = .number v) ∧
      (rhs.IsFormula → (∀ w ∈ values, ∃ m, w = .number m) →
        n.generator.call values .empty = .ok (.number v)) := by
  have hs := consistent_of_compile h
  obtain ⟨n, hn, hkind, rfl, hparents⟩ := (describes_of_compile h).logical hs hrule
  obtain ⟨hnames, hplain⟩ := hv.definition (hs.lookup_logical hrule)
  have hnodup : n.parents.Nodup := by
    rw [hparents]
    exact nodup_eraseDups _
  have hmem (y : String) : y ∈ n.parents ↔ y ∈ n.generator.expression.names := by
    rw [hparents, List.mem_eraseDups]
  choose! value hvalue using hnames
  have hvalues : List.Forall₂ c.state.Gives n.parents (n.parents.map value) :=
    List.forall₂_map_right_iff.2 (List.forall₂_same.2 fun y hy => hvalue y ((hmem y).1 hy))
  have hlength := hvalues.length_eq
  obtain ⟨hbound, hheld⟩ := Generator.get?_bind hnodup hvalues
  have heval := hplain (n.generator.bind (n.parents.map value) .empty).get?
    fun y hy => hbound y ((hmem y).2 hy)
  refine ⟨n, n.parents.map value, hn, hkind, rfl, hvalues, heval, fun hsober => ?_,
    fun hformula hnumbers => ?_⟩
  · obtain ⟨w, hw, hstands⟩ := hsober.eval (fun y u hu => (hheld y u hu).ne_cell) heval
    refine ⟨w, Generator.call_eq_ok hnodup hlength hw, ?_⟩
    rcases hstands.becomes with rfl | hplain
    · rfl
    · exact Value.unwrap_of_plain? hplain
  · have hplainly : List.Forall₂ (fun _ w => ∃ m, w = .number m) n.parents
        (n.parents.map value) :=
      List.forall₂_iff_zip.2 ⟨hlength, fun hyw => hnumbers _ (List.of_mem_zip hyw).2⟩
    have hnumerical := hformula.numerical (Generator.get?_bind hnodup hplainly).2
    exact Generator.call_eq_ok hnodup hlength (hnumerical.2 _ heval).1

/-- One more than the magnitude of `a`. -/
def magnitudeRule : Expr :=
  .call "+" [.call "abs" [.name "a"] none, .literal (.int 1) 0] none

/-- Gives `a` a value, and `y` one more than its magnitude. -/
def magnitude : Program :=
  ⟨[.assign (.name "a") (.literal (.int (-3)) 0) none, .assign (.name "y") magnitudeRule none],
    none⟩

/-- What `magnitude` comes to. -/
def magnitudeState : State :=
  { State.empty with logical := ⟨[("a", .literal (.int (-3)) 0), ("y", magnitudeRule)]⟩ }

theorem resolve_magnitude :
    magnitude.resolve .empty = (.ok (magnitude, ⟨0, 0, 2, 0⟩), magnitudeState) :=
  Program.resolve_of_absorbed (n := 2) rfl

theorem compile_magnitude : ∃ c n, compile magnitude [] = .ok c ∧
    c.state.logical = magnitudeState.logical ∧ c.state.Gives "y" (.number (.int 4)) ∧
    c.state.Gives "a" (.number (.int (-3))) ∧ c.nodes.get? "y" = some n ∧
    n.generator = ⟨magnitudeRule, ["a"]⟩ := by
  obtain ⟨d, e, hemit⟩ : ∃ d e, magnitudeState.emit =
      .ok ⟨[("a", ⟨.logical, d, ⟨.literal (.int (-3)) 0, []⟩⟩),
        ("y", ⟨.logical, e, ⟨magnitudeRule, ["a"]⟩⟩)]⟩ := ⟨_, _, rfl⟩
  have hcompile : compile magnitude [] =
      .ok ⟨magnitude, { magnitudeState with nodes := some _ }, _⟩ :=
    Stages.compile_eq ⟨_, _, _, _, _, _, rfl, rfl, rfl, rfl, resolve_magnitude, hemit, rfl⟩
  exact ⟨_, _, hcompile, rfl, rfl, rfl, rfl, rfl⟩

/-- The magnitude of a word is a cell, and one more than it is exact. -/
theorem sober_magnitude {env : Environment} (ha : env "a" = some (.number (.int (-3)))) :
    magnitudeRule.Sober env := by
  have habs : Expr.evalAll env [.name "a"] = .ok [.number (.int (-3))] := by
    simp only [Expr.evalAll, Expr.eval, ha, Except.map]
  have hcallee : Callee.of? "abs" 1 = some (.function .abs) := rfl
  have hcell : Callee.apply (.function .abs) [.number (.int (-3))] =
      .ok (.cell .word (.number (.int 3))) := by
    show Except.ok (Value.cell .word (.number (.int (CellKind.word.wrap 3)))) = _
    rfl
  have hadd : Expr.evalAll env [.call "abs" [.name "a"] none, .literal (.int 1) 0] =
      .ok [.cell .word (.number (.int 3)), .number (.int 1)] := by
    simp only [Expr.evalAll, Expr.eval, ha, Except.map, List.length_cons, List.length_nil, hcallee,
      hcell]
  simp only [magnitudeRule, Expr.Sober, Expr.SoberAll, true_and, and_true]
  refine ⟨fun ws us c hws _ _ => ?_, fun ws us c hws _ hc => ?_⟩
  · cases habs.symm.trans hws
    exact .plain (by simp [Value.IsPlain, Value.plain?, Value.unwrap])
  · cases hadd.symm.trans hws
    cases (Callee.of?_binary .add).symm.trans hc
    refine .binary (.cell (n := .int 3) (by decide)) (.number _) (.words rfl rfl (.inl rfl) rfl ?_)
    decide

theorem generator_of_gives_magnitude : ∃ c, compile magnitude [] = .ok c ∧
    c.state.logical.get? "y" = some magnitudeRule ∧ c.state.Gives "y" (.number (.int 4)) ∧
    ∃ n values, c.nodes.get? "y" = some n ∧ List.Forall₂ c.state.Gives n.parents values ∧
      ∃ w, n.generator.call values .empty = .ok w ∧ w.unwrap = .number (.int 4) := by
  obtain ⟨c, m, hc, hlogical, hy, ha, hm, hgenerator⟩ := compile_magnitude
  have hrule : c.state.logical.get? "y" = some magnitudeRule := by
    rw [hlogical]
    rfl
  obtain ⟨n, values, hn, -, -, hvalues, -, hcall, -⟩ := generator_of_gives hc hrule hy
  obtain rfl : m = n := Option.some.inj (hm.symm.trans hn)
  refine ⟨c, hc, hrule, hy, m, values, hn, hvalues, hcall (sober_magnitude ?_)⟩
  -- the only parent comes to one value
  rw [Node.parents, hgenerator] at hvalues
  obtain _ | ⟨hw, _ | _⟩ := hvalues
  cases (State.gives_iff.1 hw).symm.trans (State.gives_iff.1 ha)
  rw [hgenerator]
  rfl

/-- How many of two comparisons hold. -/
def comparingRule : Expr :=
  .call "+" [.call ">" [.call "abs" [.literal (.int 1) 0] none, .literal (.int 0) 0] none,
    .call ">" [.call "abs" [.literal (.int 2) 0] none, .literal (.int 0) 0] none] none

/-- Counts comparisons that hold. -/
def comparing : Program := ⟨[.assign (.name "y") comparingRule none], none⟩

/-- What `comparing` comes to. -/
def comparingState : State := { State.empty with logical := ⟨[("y", comparingRule)]⟩ }

theorem resolve_comparing :
    comparing.resolve .empty = (.ok (comparing, ⟨0, 0, 1, 0⟩), comparingState) :=
  Program.resolve_of_absorbed (n := 1) rfl

/-- The sum of two cells of truth values is a truth value, though the rule comes to two. -/
theorem generator_of_gives_comparing :
    ¬ ∀ (p : Program) (data : List (String × Datum)) (c : Compiled) (x : String) (rhs : Expr)
      (v : Number) (n : Node) (values : List Value), compile p data = .ok c →
      c.state.logical.get? x = some rhs → c.state.Gives x (.number v) →
      c.nodes.get? x = some n → List.Forall₂ c.state.Gives n.parents values →
      ∃ w u, n.generator.call values .empty = .ok w ∧ w.unwrap = .number u ∧
        (u.equal v ∨ ∃ a b, u = .real a ∧ v = .real b ∧ a.isNaN ∧ b.isNaN) := by
  intro claim
  obtain ⟨d, hemit⟩ : ∃ d, comparingState.emit =
      .ok ⟨[("y", ⟨.logical, d, ⟨comparingRule, []⟩⟩)]⟩ := ⟨_, rfl⟩
  have hcall : Generator.call ⟨comparingRule, []⟩ [] .empty =
      .ok (.cell .truth (.number (.truth true))) := rfl
  have hcompile : compile comparing [] =
      .ok ⟨comparing, { comparingState with nodes := some _ }, _⟩ :=
    Stages.compile_eq ⟨_, _, _, _, _, _, rfl, rfl, rfl, rfl, resolve_comparing, hemit, rfl⟩
  obtain ⟨w, u, hw, hu, heq⟩ := claim comparing [] _ "y" _ (.int 2) _ [] hcompile rfl rfl rfl .nil
  cases hcall.symm.trans hw
  cases hu
  rcases heq with heq | ⟨a, b, hreal, -⟩
  · exact absurd heq (by decide)
  · cases hreal

end PlateModel
