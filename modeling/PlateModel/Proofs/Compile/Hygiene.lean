import PlateModel.Proofs.Compile.Internal
import PlateModel.Proofs.Expansion.Provenance
import PlateModel.Proofs.Normal.Origins
import PlateModel.Proofs.Normal.Specials
import PlateModel.Proofs.Resolution.OuterNames

/-!
# Which distribution a special function asks for

A call of a special function about a variable that is sampled once, outside of loops and
conditionals, becomes a call with the distribution of the variable. The distribution is put in as it
is written, before the loops around the call are unrolled. So it stands for itself where it has no
name of these loops. Where it has one outside of index positions, the loops take this name, and the
rule asks for another distribution than the one that the variable is drawn from.

* `rule_of_sample`: what a variable that is sampled outside of loops is drawn from.
* `Compiled.ComesFrom`: which definition a logical rule comes from.
* `compile_distribution`: what becomes of the calls of special functions in the logical rules.
* `compile_captures`: a program in which a loop takes a name of a distribution.
-/

namespace PlateModel

open Compiling Stmt

/-! ## Samples -/

theorem Stmt.mem_samplesAll {lhs rhs : Expr} {l : Option Location} : ∀ {ss : List Stmt},
    .sample lhs rhs l ∈ ss → (lhs, rhs) ∈ samplesAll ss
  | st :: ss, h => by
    rw [samplesAll, List.mem_append]
    rcases List.mem_cons.1 h with rfl | h
    · exact .inl (List.mem_singleton_self _)
    · exact .inr (mem_samplesAll h)

/-- The distribution that is looked up for a variable is that of any sample of it. -/
theorem Samples.distribution_eq {samples : Samples} {f : SpecialFunction} {x d d' : Expr}
    {l : Option Location} (h : samples.distribution f x l = .ok d) (hx : (x, d') ∈ samples) :
    d = d' := by
  unfold distribution at h
  split at h
  · next lhs rhs hfilter =>
    have hmem : (x, d') ∈ [(lhs, rhs)] := hfilter ▸ List.mem_filter.2 ⟨hx, x.same_refl⟩
    cases List.mem_singleton.1 hmem
    cases h
    rfl
  · cases h
  · cases h

/-- A sample of a variable whose distribution has no slices stays, with its special functions
expanded. -/
theorem sample_of_normal {p valid unlinked expanded : Program} {x : String} {D : Expr}
    {l : Option Location} (hvalid : p.validate = .ok valid)
    (hunlinked : valid.unlink = .ok unlinked) (hexpanded : unlinked.expandSpecial = .ok expanded)
    (h : .sample (.name x) D l ∈ p.statements) (hD : D.NoSlices) :
    (.name x, D) ∈ samplesAll unlinked.statements ∧ ∃ D',
      D.expandSpecial (samplesAll unlinked.statements) = .ok D' ∧
        .sample (.name x) D' l ∈ expanded.statements := by
  obtain ⟨valids, hvalids, rfl⟩ := map_eq_ok.1 hvalid
  obtain ⟨unlinkeds, hunlinkeds, rfl⟩ := map_eq_ok.1 hunlinked
  obtain ⟨expandeds, hexpandeds, rfl⟩ := map_eq_ok.1 hexpanded
  obtain ⟨st, hst, hvalid⟩ := validate_rewritesEach.mem_of_mem hvalids h
  obtain ⟨lhs, rhs, hlhs, hrhs, rfl⟩ := validate_sample_eq_ok hvalid
  cases hlhs
  rw [Expr.validate_of_noSlices hrhs hD] at hst
  obtain ⟨st, hst, hunlinked⟩ := unlink_rewritesEach.mem_of_mem hunlinkeds hst
  cases hunlinked
  refine ⟨mem_samplesAll hst, ?_⟩
  obtain ⟨st, hst, hexpanded⟩ := (expandSpecial_rewritesEach _).mem_of_mem hexpandeds hst
  obtain ⟨lhs, D', hlhs, hD', rfl⟩ := expandSpecial_sample_eq_ok hexpanded
  cases hlhs
  exact ⟨D', hD', hst⟩

/-- A variable that is sampled outside of loops and conditionals has a stochastic rule. If its
distribution can be lowered in the end, then the rule is what it is lowered to; in any case the rule
has the same identifiers as the distribution has outside of index positions. -/
theorem rule_of_sample {p q : Program} {tally : Tally} {s t : State} {x : String} {D : Expr}
    {l : Option Location} (hs : s.registry.WellFormed) (h : p.resolve s = (.ok (q, tally), t))
    (hst : .sample (.name x) D l ∈ p.statements) : ∃ g, t.stochastic.get? x = some g ∧
      (D.SingleCells → ∀ d, t.LowersTo D d → g.expression.same d) ∧
      ∀ y, '[' ∉ y.toList → (y ∈ g.expression.names ↔ y ∈ D.outerNames) := by
  have ht := (absorbed_of_resolve hs h).1.registry.wellFormed
  obtain ⟨st, -, hsame, ⟨new, habsorbed⟩, hself⟩ := recorded_of_resolve hs h hst
  -- what equals the sample is again a sample of the variable
  obtain ⟨D', l', rfl, hDsame⟩ : ∃ D' l', st = .sample (.name x) D' l' ∧ D'.same D := by
    cases st with
    | sample lhs D' l' =>
      simp only [Stmt.same, Bool.and_eq_true] at hsame
      cases lhs with
      | name y =>
        obtain rfl : y = x := eq_of_beq hsame.1
        exact ⟨D', l', rfl, hsame.2⟩
      | _ => cases hsame.1
    | _ => cases hsame
  rcases habsorbed with ⟨_, _, -, hskipped, -⟩ | ⟨u, v, hu, hst', huv, hv⟩
  · cases hskipped
  · cases absorbStochastic_absorbs hst' with
    | @absorbed lhs rhs e l₁ y w _ _ hdefinition hlowered hregistry hrecords =>
      obtain ⟨rfl, rfl, rfl⟩ : lhs = .name x ∧ rhs = D' ∧ l₁ = l' := by
        rcases hdefinition with heq | heq <;> cases heq
        exact ⟨rfl, rfl, rfl⟩
      obtain ⟨_, _, r', hsymbolic, hy, -, hlower, rfl⟩ := lowered_eq_ok.1 hlowered
      cases hsymbolic
      cases hy
      obtain ⟨g, hg, hgsame⟩ := hrecords.mono hv.within
      refine ⟨g, hg, fun hD d hd => ?_, fun z hz => ?_⟩
      · have hlowers : t.Lowers (.sample (.name x) D l) :=
          ⟨⟨.scalar x, .inl (.scalar x), rfl, rfl⟩, d, hd⟩
        cases hself nofun hD.singleIndices hlowers
        obtain ⟨lhs, rhs, l₂, y, e', d', hdefinition, hy, hd', heq, hrecords⟩ :=
          (absorbStochastic_absorbs hst').lowers hu.registry.wellFormed ht huv.within hv.within
            ⟨nofun, hD.singleIndices⟩
        rcases hdefinition with hdefinition | hdefinition <;> cases hdefinition
        obtain rfl : y = .scalar x := hy.unique ⟨.inl (.scalar x), rfl, rfl⟩
        obtain ⟨g', hg', hgsame'⟩ := hrecords
        cases hg.symm.trans hg'
        rwa [heq hD, hd'.unique hd] at hgsame'
      · rw [Expr.names_of_same hgsame, Expr.mem_names_of_lower hz hlower,
          Expr.outerNames_of_same hDsame]

/-! ## Compilation -/

/-- A logical rule of a compiled model comes from a definition of the program, at integers for the
variables of the loops around it: the rule has been made of what the passes make of the definition.
-/
def Compiled.ComesFrom (c : Compiled) (p : Program) (env : Mapping) (lhs rhs : Expr) (k : String)
    (rule : Expr) : Prop :=
  ∃ l normal, Occurs p.statements env (.assign lhs rhs l) ∧
    p.Normalizes (.assign lhs rhs l) normal ∧ normal.substitute env ∈ c.program.statements ∧
    c.state.Makes (normal.substitute env) k rule

section Compile

variable {p : Program} {data : List (String × Datum)} {c : Compiled} {k : String} {rule : Expr}

theorem wellFormed_of_compile (h : compile p data = .ok c) : c.state.registry.WellFormed := by
  obtain ⟨stages⟩ := compile_stages h
  rw [stages.state]
  exact (absorbed_of_resolve (State.seeded_of_seed stages.seed).wellFormed
    stages.resolve).1.registry.wellFormed

/-- Every logical rule comes from a definition. -/
theorem Stages.comesFrom (stages : Stages p data c) (hk : c.state.logical.get? k = some rule) :
    ∃ env lhs rhs, c.ComesFrom p env lhs rhs k rule := by
  obtain ⟨hstems, hmade⟩ := made_of_resolve (State.seeded_of_seed stages.seed) stages.resolve
  rw [stages.state] at hk
  obtain ⟨st, hst, hmakes⟩ := hmade hk
  obtain ⟨env, normal, hoccurs, rfl⟩ := hstems st hst
  rw [List.append_nil] at hst hmakes
  obtain ⟨source, hsource, hnormal⟩ :=
    Program.normalizes_of_occurs stages.validate stages.unlink stages.expandSpecial hoccurs
  have hassign : ∃ lhs rhs l, normal = .assign lhs rhs l := by
    obtain ⟨_, _, _, _, _, _, heq, -⟩ := hmakes
    cases normal with
    | assign lhs rhs l => exact ⟨lhs, rhs, l, rfl⟩
    | _ => cases heq
  obtain ⟨_, _, _, rfl⟩ := hassign
  obtain ⟨lhs, rhs, l, rfl⟩ := hnormal.assign
  refine ⟨env, lhs, rhs, l, _, hsource, hnormal, hst, ?_⟩
  obtain ⟨_, _, _, _, _, _, heq, hname, hu, hlowered, hv⟩ := hmakes
  rw [stages.state]
  exact ⟨_, _, _, _, _, _, heq, hname, hu, hlowered, hv.rules, hv.registry, hv.stochastic⟩

/-- In a compiled model, every logical rule comes from a definition of the program, and it is what
the definition says: a call of a special function about a variable `s` that is sampled outside of
loops and conditionals has become one with the distribution `D` of `s`, lowered with the integers of
the loops around the call. This equals the rule of `s` if none of these loops has a name of `D`. It
does not if one of them has a name of `D` that stands outside of index positions. -/
theorem compile_distribution {s : String} {D : Expr} {l : Option Location}
    (h : compile p data = .ok c) (hs : .sample (.name s) D l ∈ p.statements) (hD : D.NoSlices) :
    ∃ g, c.state.stochastic.get? s = some g ∧ ∀ k rule, c.state.logical.get? k = some rule →
      (∃ env lhs rhs, c.ComesFrom p env lhs rhs k rule) ∧
      ∀ env lhs rhs, c.ComesFrom p env lhs rhs k rule →
        (definiens lhs rhs).Mirrors env s (fun d => c.state.LowersTo (D.substitute env) d ∧
          ((∀ x ∈ D.names, env.lookup x = none) → g.expression.same d) ∧
          ((∃ x ∈ D.outerNames, env.lookup x ≠ none) → ¬ g.expression.same d)) rule := by
  obtain ⟨stages⟩ := compile_stages h
  have hseeded := State.seeded_of_seed stages.seed
  have hsingle : D.SingleCells := fun r hr => (hD r hr).2
  obtain ⟨hsamples, D', hD', hs'⟩ :=
    sample_of_normal stages.validate stages.unlink stages.expandSpecial hs hD
  obtain ⟨g, hg, hsame, hnames⟩ := rule_of_sample hseeded.wellFormed stages.resolve hs'
  refine ⟨g, by rw [stages.state]; exact hg, fun k rule hk => ⟨stages.comesFrom hk, ?_⟩⟩
  rintro env lhs rhs ⟨l', normal, hoccurs, hnormal, -, hmakes⟩
  obtain ⟨valid, unlinked, lhs', rhs', e, hvalid, hunlinked, rfl, he, hrhs'⟩ := hnormal.definiens
  cases stages.validate.symm.trans hvalid
  cases stages.unlink.symm.trans hunlinked
  obtain ⟨_, _, _, x, u, v, heq, rfl, hu, hlowered, hv⟩ := hmakes
  cases heq
  obtain ⟨_, r, r', hsymbolic, -, -, hlower, rfl⟩ := lowered_eq_ok.1 hlowered
  have hr := (Definitions.symbolic_grows _ _ Definitions.grows_any).of_eq hsymbolic hu
  have hliteral := hoccurs.literal
  have hcheck : rule.checkEvaluable = .ok () := by
    rw [stages.state] at hk
    exact State.checkEvaluable_of_emit stages.emit hk
  refine Expr.mirrors_of_lower hliteral ?_ he hrhs' hlower hr.wellFormed hv.registry hcheck
  intro f l₁ distribution d r₁ r₂ hdistribution hr₁ hlower₁ hle hcheck₁
  obtain rfl : D = distribution := (Samples.distribution_eq hdistribution hsamples).symm
  -- the distribution calls no special function, so it is not expanded in its own sample either
  have hspecials : D.specials = [] := by
    rw [← Expr.specials_substitute hliteral, ← Expr.specials_of_lower hlower₁]
    exact Expr.specials_of_checkEvaluable hcheck₁
  obtain rfl : D = D' :=
    Except.ok.inj ((Expr.expandSpecial_of_specials hspecials).symm.trans hD')
  have hlowers : c.state.LowersTo (D.substitute env) d := by
    obtain ⟨d', hd', heq⟩ := (Definitions.lower_replays hv.rules (wellFormed_of_compile h)
      (hsingle.substitute hliteral).singleIndices).ok hr₁ hlower₁ hle
    rwa [← heq (hsingle.substitute hliteral)] at hd'
  refine ⟨hlowers, fun hfree => ?_, ?_⟩
  · have hself : D.substitute env = D.substitute [] := Expr.substitute_congr hfree
    rw [hself, Expr.substitute_nil, stages.state] at hlowers
    exact hsame hsingle d hlowers
  · rintro ⟨y, hy, hlookup⟩ hgd
    obtain ⟨z, hz⟩ := Option.ne_none_iff_exists'.1 hlookup
    obtain ⟨_, hvalids, -⟩ := map_eq_ok.1 stages.validate
    have hbracket := Text.bracket_not_mem (hoccurs.isIdentifier hvalids hz)
    have hd : y ∈ d.names := by
      rw [← Expr.names_of_same hgd]
      exact (hnames y hbracket).2 hy
    have houter := (Expr.mem_names_of_lower hbracket hlower₁).1 hd
    exact hlookup ((Expr.mem_outerNames_substitute hliteral).1 houter).2

end Compile

/-! ## Loops around a call -/

/-- The normal distribution of variance one around a mean. -/
def normalAround (mean : Expr) : Expr := .call "dnorm" [mean, .literal (.int 1) 0] none

/-- The cumulative probability of zero around a mean. -/
def scoreAround (mean : Expr) : Expr := .call "cdf" [normalAround mean, .literal (.int 0) 0] none

/-- Samples a variable around a mean. -/
def sampleAround (mean : Expr) : Stmt := .sample (.name "s") (normalAround mean) none

/-- Defines two cells, in a loop. -/
def inLoop (rhs : Expr) : Stmt :=
  .loop "i" (.literal (.int 1) 0) (.literal (.int 2) 0)
    [.assign (.index (.name "y") [.name "i"] none) rhs none] none

/-- Samples a variable around a mean, and asks in a loop for its cumulative probability of zero. -/
def scoring (mean : Expr) : Program :=
  ⟨[sampleAround mean,
    inLoop (.call "cumulative" [.name "s", .literal (.int 0) 0] none)], none⟩

/-- The definitions of the cells, with the means that the turns of the loop ask for. -/
def scores (first second : Expr) : List Stmt :=
  [.assign (.index (.name "y") [.literal (.int 1) 0] none) (scoreAround first) none,
    .assign (.index (.name "y") [.literal (.int 2) 0] none) (scoreAround second) none]

/-- The state with the rules of the cells. -/
def scoresState (first second : Expr) : State :=
  { State.empty with
    registry := ⟨⟨[("y", ⟨[2], [⟨"y", [1]⟩, ⟨"y", [2]⟩], 1⟩)]⟩⟩
    logical := ⟨[("y[1]", scoreAround first), ("y[2]", scoreAround second)]⟩ }

/-- The state with the rule of the variable too. -/
def scoredState (mean first second : Expr) : State :=
  { scoresState first second with
    stochastic := ⟨[("s", ⟨normalAround mean, mean.distinctNames⟩)]⟩ }

/-- What `scoring` is compiled to. -/
def scored (mean first second : Expr) (nodes : Assoc Node) : Compiled :=
  ⟨⟨scores first second ++ [sampleAround mean], none⟩,
    { scoredState mean first second with nodes := some nodes }, nodes⟩

section Scoring

variable {mean first second : Expr}

theorem validate_scoring (h : mean.validate = .ok mean) :
    (scoring mean).validate = .ok (scoring mean) := by
  have hcumulative : Expr.isKnownCall "cumulative" 2 := by decide
  have hcall : (Expr.call "cumulative" [.name "s", .literal (.int 0) 0] none).validate =
      .ok (.call "cumulative" [.name "s", .literal (.int 0) 0] none) := by
    rw [Expr.validate, List.length_cons, List.length_cons, List.length_nil, hcumulative]
    rfl
  have hdnorm : Expr.isKnownCall "dnorm" 2 := by decide
  have hnormal : (normalAround mean).validate = .ok (normalAround mean) := by
    rw [normalAround, Expr.validate, List.length_cons, List.length_cons, List.length_nil, hdnorm,
      Expr.validateAll, h]
    rfl
  show Except.map _ (validateAll [sampleAround mean, inLoop _]) = _
  simp only [sampleAround, inLoop, validateAll, validate, hcall, hnormal,
    Text.isIdentifier_counter]
  rfl

theorem expandSpecial_scoring (h : ∀ samples, mean.expandSpecial samples = .ok mean) :
    (scoring mean).expandSpecial =
      .ok ⟨[sampleAround mean, inLoop (scoreAround mean)], none⟩ := by
  have hnormal (samples : Samples) :
      (normalAround mean).expandSpecial samples = .ok (normalAround mean) := by
    rw [normalAround, Expr.expandSpecial, Expr.expandSpecialAll, h]
    rfl
  show Except.map _ (expandSpecialAll _ [sampleAround mean, inLoop _]) = _
  simp only [sampleAround, inLoop, expandSpecialAll, expandSpecial, hnormal]
  rfl

/-- What `scoring` is compiled to, if its loop is unrolled to these definitions, and they are
absorbed. -/
theorem compile_scoring {nodes : Assoc Node} (hvalid : mean.validate = .ok mean)
    (hspecial : ∀ samples, mean.expandSpecial samples = .ok mean)
    (hunroll : (Resolution.start [sampleAround mean, inLoop (scoreAround mean)]).round .empty =
      (.ok (⟨sampleAround mean :: scores first second, [], [], ⟨1, 0, 0, 0⟩⟩, 1), .empty))
    (habsorb : (⟨sampleAround mean :: scores first second, [], [], ⟨1, 0, 0, 0⟩⟩ :
        Resolution).round .empty =
      (.ok (⟨[sampleAround mean], scores first second, [], ⟨1, 0, 2, 0⟩⟩, 2),
        scoresState first second))
    (hsample : absorbStochastic (sampleAround mean) (scoresState first second) =
      (.ok (.absorbed true), scoredState mean first second))
    (hemit : (scoredState mean first second).emit = .ok nodes) :
    compile (scoring mean) [] = .ok (scored mean first second nodes) := by
  have hrun : (Resolution.start [sampleAround mean, inLoop (scoreAround mean)]).run .empty =
      (.ok ⟨[sampleAround mean], scores first second, [], ⟨1, 0, 2, 0⟩⟩,
        scoresState first second) := by
    have hdone : (⟨[sampleAround mean], scores first second, [], ⟨1, 0, 2, 0⟩⟩ :
        Resolution).round (scoresState first second) =
      (.ok (⟨[sampleAround mean], scores first second, [], ⟨1, 0, 2, 0⟩⟩, 0),
        scoresState first second) := rfl
    rw [Resolution.run_of_round hunroll, if_neg (by decide), Resolution.run_of_round habsorb,
      if_neg (by decide), Resolution.run_of_round hdone, if_pos rfl]
  have hresolve : (⟨[sampleAround mean, inLoop (scoreAround mean)], none⟩ : Program).resolve
        .empty =
      (.ok (⟨scores first second ++ [sampleAround mean], none⟩, ⟨1, 0, 2, 1⟩),
        scoredState mean first second) := by
    have hsamples : [sampleAround mean].mapM absorbStochastic (scoresState first second) =
        (.ok [.absorbed true], scoredState mean first second) := by
      rw [List.mapM_cons, run_bind_of_ok hsample]
      rfl
    rw [Program.resolve, run_bind_of_ok hrun, run_bind, Resolution.attempt,
      run_bind_of_ok hsamples]
    rfl
  rw [compile_of_resolved rfl (validate_scoring hvalid) rfl
    (expandSpecial_scoring hspecial) hresolve, hemit]
  rfl

end Scoring

/-- Around a constant, the loop asks for the distribution that the variable is drawn from. -/
theorem compile_scoring_constant : ∃ nodes, compile (scoring (.literal (.int 0) 0)) [] =
    .ok (scored (.literal (.int 0) 0) (.literal (.int 0) 0) (.literal (.int 0) 0) nodes) :=
  ⟨_, compile_scoring rfl (fun _ => rfl) rfl rfl rfl rfl⟩

/-- Around the variable of the loop, it asks for other distributions. -/
theorem compile_scoring_counter : ∃ nodes, compile (scoring (.name "i")) [] =
    .ok (scored (.name "i") (.literal (.int 1) 0) (.literal (.int 2) 0) nodes) :=
  ⟨_, compile_scoring rfl (fun _ => rfl) rfl rfl rfl rfl⟩

theorem compile_distribution_scoring : ∃ c,
    compile (scoring (.literal (.int 0) 0)) [] = .ok c ∧
    .sample (.name "s") (normalAround (.literal (.int 0) 0)) none ∈
      (scoring (.literal (.int 0) 0)).statements ∧
    (normalAround (.literal (.int 0) 0)).NoSlices ∧
    c.state.logical.get? "y[1]" = some (scoreAround (.literal (.int 0) 0)) ∧
    ∃ g, c.state.stochastic.get? "s" = some g ∧ ∀ k rule, c.state.logical.get? k = some rule →
      (∃ env lhs rhs, c.ComesFrom (scoring (.literal (.int 0) 0)) env lhs rhs k rule) ∧
      ∀ env lhs rhs, c.ComesFrom (scoring (.literal (.int 0) 0)) env lhs rhs k rule →
        (definiens lhs rhs).Mirrors env "s" (fun d =>
          c.state.LowersTo ((normalAround (.literal (.int 0) 0)).substitute env) d ∧
          ((∀ x ∈ (normalAround (.literal (.int 0) 0)).names, env.lookup x = none) →
            g.expression.same d) ∧
          ((∃ x ∈ (normalAround (.literal (.int 0) 0)).outerNames, env.lookup x ≠ none) →
            ¬ g.expression.same d)) rule := by
  obtain ⟨nodes, hc⟩ := compile_scoring_constant
  have hs : .sample (.name "s") (normalAround (.literal (.int 0) 0)) none ∈
      (scoring (.literal (.int 0) 0)).statements := List.mem_cons_self
  have hD : (normalAround (.literal (.int 0) 0)).NoSlices := by decide
  exact ⟨_, hc, hs, hD, rfl, compile_distribution hc hs hD⟩

/-- The rule of a cell comes from the definition in the loop, at the first turn. -/
theorem comesFrom_scoring {nodes : Assoc Node} (hc : compile (scoring (.name "i")) [] =
      .ok (scored (.name "i") (.literal (.int 1) 0) (.literal (.int 2) 0) nodes)) :
    (scored (.name "i") (.literal (.int 1) 0) (.literal (.int 2) 0) nodes).ComesFrom
      (scoring (.name "i")) [("i", .ofNumber (.int 1))] (.index (.name "y") [.name "i"] none)
      (.call "cumulative" [.name "s", .literal (.int 0) 0] none) "y[1]"
      (scoreAround (.literal (.int 1) 0)) := by
  have hvalid : (scoring (.name "i")).validate = .ok (scoring (.name "i")) := validate_scoring rfl
  have hdefinition : Occurs [.assign (.index (.name "y") [.name "i"] none)
      (.call "cumulative" [.name "s", .literal (.int 0) 0] none) none] []
      (.assign (.index (.name "y") [.name "i"] none)
        (.call "cumulative" [.name "s", .literal (.int 0) 0] none) none) :=
    .here List.mem_cons_self
  refine ⟨none, .assign (.index (.name "y") [.name "i"] none) (scoreAround (.name "i")) none,
    .loop (List.mem_cons_of_mem _ List.mem_cons_self) 1 hdefinition,
    ⟨_, _, hvalid, rfl, _, _, rfl, rfl, rfl⟩, List.mem_cons_self, ?_⟩
  have hwf := wellFormed_of_compile hc
  exact ⟨_, _, none, .cell ⟨"y", [1]⟩, _, _, rfl, rfl, hwf, rfl, .refl _⟩

/-- A loop can take a name of the distribution: not every rule asks for the distribution that the
variable is drawn from. -/
theorem compile_captures : ¬ ∀ (p : Program) (data : List (String × Datum)) (c : Compiled)
    (s : String) (D : Expr) (l : Option Location) (g : Generator), compile p data = .ok c →
      .sample (.name s) D l ∈ p.statements → D.NoSlices → c.state.stochastic.get? s = some g →
      ∀ k rule env lhs rhs, c.state.logical.get? k = some rule →
        c.ComesFrom p env lhs rhs k rule →
        (definiens lhs rhs).Mirrors env s (fun d => g.expression.same d) rule := by
  intro claim
  obtain ⟨nodes, hc⟩ := compile_scoring_counter
  have hmirrors := claim _ [] _ "s" (normalAround (.name "i")) none _ hc List.mem_cons_self
    (by decide) rfl _ _ _ _ _ rfl (comesFrom_scoring hc)
  obtain ⟨distribution, value, heq, hsame, -⟩ := hmirrors.of_special rfl
  cases heq
  cases hsame rfl

end PlateModel
