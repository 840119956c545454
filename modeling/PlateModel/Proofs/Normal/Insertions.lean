import PlateModel.Proofs.Normal.Origins
import PlateModel.Proofs.Normal.Specials

/-!
# What the expansion of special functions leaves

Every call of a special function that is written in a program is replaced, inner calls first. The
distribution that is put in its place is copied as it is written in its own statement, and the copy
is not gone through. So the calls in the expanded program are those of the distributions that were
put in, and no others.

* `Expr.insertions`: the distributions that the expansion of an expression puts in.
* `specials_of_expandSpecial`: the calls in an expanded expression.
* `specials_of_same`: an expansion that changes nothing had nothing to expand.
* `Program.specials_expandSpecial`: what is left in an expanded program, and when another expansion
  finds nothing to do.
-/

namespace PlateModel

namespace Expr

/-- The distribution that is put in for a variable which is itself expanded first. -/
def sought (samples : Samples) (g : SpecialFunction) (x : Expr) (l : Option Location) :
    Except Fault Expr := do
  samples.distribution g (← x.expandSpecial samples) l

/-- The distributions that are put in for a call, given those that are put in for each argument. Of
a special function the variable is dropped, and with it what was put in there. -/
def insertionsOfCall (samples : Samples) (f : String) (args : List Expr) (l : Option Location)
    (each : List (List Expr)) : List Expr :=
  match SpecialFunction.ofName? f with
  | none => each.flatten
  | some g =>
    match args, each with
    | [x, _], [_, ofValue] => (sought samples g x l).toOption.toList ++ ofValue
    | _, each => each.flatten

mutual

/-- The distributions that the expansion of an expression puts in, in order. -/
def insertions (samples : Samples) : Expr → List Expr
  | literal .. | name _ | colon _ => []
  | index base is _ => insertions samples base ++ (insertionsOfEach samples is).flatten
  | call f args l => insertionsOfCall samples f args l (insertionsOfEach samples args)
  | range a b _ => insertions samples a ++ insertions samples b
  | stepped a b s _ => insertions samples a ++ (insertions samples b ++ insertions samples s)
  | array xs _ _ => (insertionsOfEach samples xs).flatten

/-- The distributions that are put in for each expression of a list. -/
def insertionsOfEach (samples : Samples) : List Expr → List (List Expr)
  | [] => []
  | x :: xs => insertions samples x :: insertionsOfEach samples xs

end

/-! ## The calls that are left -/

/-- The expansion of a special function calls none but those of its distribution and its value. -/
theorem specials_expansion (g : SpecialFunction) (distribution value : Expr)
    (l : Option Location) : (g.expansion distribution value l).specials =
      distribution.specials ++ value.specials := by
  have hcdf : SpecialFunction.ofName? "cdf" = none := rfl
  have hpdf : SpecialFunction.ofName? "pdf" = none := rfl
  have hlogpdf : SpecialFunction.ofName? "logpdf" = none := rfl
  have htimes : SpecialFunction.ofName? "*" = none := rfl
  cases g <;>
    simp [SpecialFunction.expansion, specials, specialsOfAll, ofNumber, hcdf, hpdf, hlogpdf, htimes]

variable {samples : Samples}

theorem expandSpecial_index_eq_ok {base e : Expr} {is : List Expr} {l : Option Location}
    (h : (index base is l).expandSpecial samples = .ok e) : ∃ base' is',
      base.expandSpecial samples = .ok base' ∧ expandSpecialAll samples is = .ok is' ∧
        e = index base' is' l := by
  obtain ⟨base', hbase, h⟩ := bind_eq_ok.1 h
  obtain ⟨is', his, h⟩ := bind_eq_ok.1 h
  cases h
  exact ⟨base', is', hbase, his, rfl⟩

theorem expandSpecial_call_eq_ok {f : String} {args : List Expr} {l : Option Location} {e : Expr}
    (h : (call f args l).expandSpecial samples = .ok e) : ∃ args',
      expandSpecialAll samples args = .ok args' ∧ expandCall samples f args' l = .ok e :=
  bind_eq_ok.1 h

theorem expandSpecial_range_eq_ok {a b e : Expr} {l : Option Location}
    (h : (range a b l).expandSpecial samples = .ok e) : ∃ a' b',
      a.expandSpecial samples = .ok a' ∧ b.expandSpecial samples = .ok b' ∧ e = range a' b' l := by
  obtain ⟨a', ha, h⟩ := bind_eq_ok.1 h
  obtain ⟨b', hb, h⟩ := bind_eq_ok.1 h
  cases h
  exact ⟨a', b', ha, hb, rfl⟩

theorem expandSpecial_stepped_eq_ok {a b s e : Expr} {l : Option Location}
    (h : (stepped a b s l).expandSpecial samples = .ok e) : ∃ a' b' s',
      a.expandSpecial samples = .ok a' ∧ b.expandSpecial samples = .ok b' ∧
        s.expandSpecial samples = .ok s' ∧ e = stepped a' b' s' l := by
  obtain ⟨s', hs, h⟩ := bind_eq_ok.1 h
  obtain ⟨a', ha, h⟩ := bind_eq_ok.1 h
  obtain ⟨b', hb, h⟩ := bind_eq_ok.1 h
  cases h
  exact ⟨a', b', s', ha, hb, hs, rfl⟩

theorem expandSpecial_array_eq_ok {xs : List Expr} {shape : List Int} {e : Expr}
    {l : Option Location} (h : (array xs shape l).expandSpecial samples = .ok e) :
    ∃ xs', expandSpecialAll samples xs = .ok xs' ∧ e = array xs' shape l := by
  obtain ⟨xs', hxs, h⟩ := bind_eq_ok.1 h
  cases h
  exact ⟨xs', hxs, rfl⟩

mutual

/-- The special functions that an expanded expression calls are those of the distributions that were
put in. -/
theorem specials_of_expandSpecial : ∀ {e e' : Expr}, e.expandSpecial samples = .ok e' →
    e'.specials = (e.insertions samples).flatMap specials
  | literal .., _, h | name _, _, h | colon _, _, h => by
    cases h
    rfl
  | index base is _, _, h => by
    obtain ⟨base', is', hbase, his, rfl⟩ := expandSpecial_index_eq_ok h
    rw [specials, insertions, List.flatMap_append, specials_of_expandSpecial hbase,
      specialsOfAll_of_expandSpecialAll his]
  | call f args l, e', h => by
    obtain ⟨args', hargs, hcall⟩ := expandSpecial_call_eq_ok h
    rcases expandCall_eq_ok hcall with ⟨hf, rfl⟩ | ⟨g, x', value', d, hf, rfl, hd, rfl⟩
    · rw [specials, insertions, insertionsOfCall, hf, specialsOfAll_of_expandSpecialAll hargs]
      rfl
    · obtain ⟨x, value, rfl, hx, hvalue⟩ := exists_pair (forall₂_of_expandSpecialAll hargs)
      have hsought : sought samples g x l = .ok d := by rw [sought, hx, ok_bind, hd]
      rw [specials_expansion, specials_of_expandSpecial hvalue]
      simp only [insertions, insertionsOfEach, insertionsOfCall, hf, hsought, Except.toOption,
        Option.toList_some, List.flatMap_append, List.flatMap_singleton]
  | range a b _, _, h => by
    obtain ⟨a', b', ha, hb, rfl⟩ := expandSpecial_range_eq_ok h
    rw [specials, insertions, List.flatMap_append, specials_of_expandSpecial ha,
      specials_of_expandSpecial hb]
  | stepped a b s _, _, h => by
    obtain ⟨a', b', s', ha, hb, hs, rfl⟩ := expandSpecial_stepped_eq_ok h
    rw [specials, insertions, List.flatMap_append, List.flatMap_append,
      specials_of_expandSpecial ha, specials_of_expandSpecial hb, specials_of_expandSpecial hs]
  | array xs _ _, _, h => by
    obtain ⟨xs', hxs, rfl⟩ := expandSpecial_array_eq_ok h
    exact specialsOfAll_of_expandSpecialAll hxs

theorem specialsOfAll_of_expandSpecialAll : ∀ {es es' : List Expr},
    expandSpecialAll samples es = .ok es' →
      specialsOfAll es' = (insertionsOfEach samples es).flatten.flatMap specials
  | [], _, h => by
    cases h
    rfl
  | e :: es, _, h => by
    obtain ⟨e', es', he, hes, rfl⟩ := expandSpecialAll_cons_eq_ok h
    rw [specialsOfAll, insertionsOfEach, List.flatten_cons, List.flatMap_append,
      specials_of_expandSpecial he, specialsOfAll_of_expandSpecialAll hes]

end

/-! ## Where they come from -/

theorem mem_of_sought {g : SpecialFunction} {x D : Expr} {l : Option Location}
    (h : D ∈ (sought samples g x l).toOption.toList) : ∃ x, (x, D) ∈ samples := by
  cases hsought : sought samples g x l with
  | error e =>
    rw [hsought] at h
    cases h
  | ok d =>
    rw [hsought] at h
    obtain rfl := List.mem_singleton.1 h
    obtain ⟨x', -, hd⟩ := bind_eq_ok.1 hsought
    exact mem_of_distribution hd

theorem mem_of_mem_insertionsOfCall {D : Expr} {f : String} {args : List Expr}
    {l : Option Location} {each : List (List Expr)}
    (h : D ∈ insertionsOfCall samples f args l each) :
    (∃ x, (x, D) ∈ samples) ∨ D ∈ each.flatten := by
  unfold insertionsOfCall at h
  split at h
  · exact .inr h
  · split at h
    · exact (List.mem_append.1 h).imp mem_of_sought fun h => by simp [h]
    · exact .inr h

mutual

/-- What is put in is the right-hand side of a sample. -/
theorem mem_of_mem_insertions {D : Expr} : ∀ {e : Expr}, D ∈ e.insertions samples →
    ∃ x, (x, D) ∈ samples
  | literal .., h | name _, h | colon _, h => nomatch h
  | index .., h =>
    (List.mem_append.1 h).elim mem_of_mem_insertions mem_of_mem_insertionsOfEach
  | call .., h => (mem_of_mem_insertionsOfCall h).elim id mem_of_mem_insertionsOfEach
  | range .., h => (List.mem_append.1 h).elim mem_of_mem_insertions mem_of_mem_insertions
  | stepped .., h =>
    (List.mem_append.1 h).elim mem_of_mem_insertions fun h =>
      (List.mem_append.1 h).elim mem_of_mem_insertions mem_of_mem_insertions
  | array xs _ _, h => @mem_of_mem_insertionsOfEach D xs h

theorem mem_of_mem_insertionsOfEach {D : Expr} : ∀ {es : List Expr},
    D ∈ (insertionsOfEach samples es).flatten → ∃ x, (x, D) ∈ samples
  | [], h => nomatch h
  | _ :: _, h => (List.mem_append.1 h).elim mem_of_mem_insertions mem_of_mem_insertionsOfEach

end

/-! ## Expanding once more -/

/-- The expansion of a special function is another call. -/
theorem same_expansion (g : SpecialFunction) (distribution value : Expr) (args : List Expr)
    (l k : Option Location) :
    (g.expansion distribution value l).same (call g.name args k) = false := by
  cases g <;> rfl

mutual

/-- An expansion that makes an expression of the same form had nothing to expand. -/
theorem specials_of_same : ∀ {e e' : Expr}, e.expandSpecial samples = .ok e' → e'.same e →
    e.specials = []
  | literal .., _, _, _ | name _, _, _, _ | colon _, _, _, _ => rfl
  | index base is _, _, h, hsame => by
    obtain ⟨base', is', hbase, his, rfl⟩ := expandSpecial_index_eq_ok h
    simp only [same, Bool.and_eq_true] at hsame
    rw [specials, specials_of_same hbase hsame.1, specialsOfAll_of_sameAll his hsame.2]
    rfl
  | call f args l, _, h, hsame => by
    obtain ⟨args', hargs, hcall⟩ := expandSpecial_call_eq_ok h
    rcases expandCall_eq_ok hcall with ⟨hf, rfl⟩ | ⟨g, x', value', d, hf, rfl, hd, rfl⟩
    · simp only [same, Bool.and_eq_true] at hsame
      rw [specials, hf, specialsOfAll_of_sameAll hargs hsame.2]
      rfl
    · have hname : g.name = f := by simpa using List.find?_some hf
      rw [← hname, same_expansion] at hsame
      cases hsame
  | range a b _, _, h, hsame => by
    obtain ⟨a', b', ha, hb, rfl⟩ := expandSpecial_range_eq_ok h
    simp only [same, Bool.and_eq_true] at hsame
    rw [specials, specials_of_same ha hsame.1, specials_of_same hb hsame.2]
    rfl
  | stepped a b s _, _, h, hsame => by
    obtain ⟨a', b', s', ha, hb, hs, rfl⟩ := expandSpecial_stepped_eq_ok h
    simp only [same, Bool.and_eq_true] at hsame
    rw [specials, specials_of_same ha hsame.1.1, specials_of_same hb hsame.1.2,
      specials_of_same hs hsame.2]
    rfl
  | array xs _ _, _, h, hsame => by
    obtain ⟨xs', hxs, rfl⟩ := expandSpecial_array_eq_ok h
    simp only [same, Bool.and_eq_true] at hsame
    exact specialsOfAll_of_sameAll hxs hsame.1

theorem specialsOfAll_of_sameAll : ∀ {es es' : List Expr},
    expandSpecialAll samples es = .ok es' → sameAll es' es → specialsOfAll es = []
  | [], _, _, _ => rfl
  | e :: es, _, h, hsame => by
    obtain ⟨e', es', he, hes, rfl⟩ := expandSpecialAll_cons_eq_ok h
    simp only [sameAll, Bool.and_eq_true] at hsame
    rw [specialsOfAll, specials_of_same he hsame.1, specialsOfAll_of_sameAll hes hsame.2]
    rfl

end

end Expr

/-! ## Programs -/

namespace Stmt

mutual

/-- The expressions that a statement is written with, at any depth. -/
def exprs : Stmt → List Expr
  | assign lhs rhs _ | sample lhs rhs _ => [lhs, rhs]
  | loop _ lower upper body _ => lower :: upper :: exprsOfAll body
  | branch condition body _ => condition :: exprsOfAll body

/-- The expressions that some statements are written with. -/
def exprsOfAll : List Stmt → List Expr
  | [] => []
  | s :: rest => exprs s ++ exprsOfAll rest

end

variable {samples : Samples}

mutual

/-- The expressions of an expanded statement are those of the statement, each expanded. -/
theorem exprs_of_expandSpecial : ∀ {s s' : Stmt}, s.expandSpecial samples = .ok s' →
    List.Forall₂ (fun e e' => e.expandSpecial samples = .ok e') s.exprs s'.exprs
  | assign .., _, h => by
    obtain ⟨lhs', rhs', hlhs, hrhs, rfl⟩ := expandSpecial_assign_eq_ok h
    exact .cons hlhs (.cons hrhs .nil)
  | sample .., _, h => by
    obtain ⟨lhs', rhs', hlhs, hrhs, rfl⟩ := expandSpecial_sample_eq_ok h
    exact .cons hlhs (.cons hrhs .nil)
  | loop .., _, h => by
    obtain ⟨lower', hlower, h⟩ := bind_eq_ok.1 h
    obtain ⟨upper', hupper, h⟩ := bind_eq_ok.1 h
    obtain ⟨body', hbody, h⟩ := bind_eq_ok.1 h
    cases h
    exact .cons hlower (.cons hupper (exprsOfAll_of_expandSpecialAll hbody))
  | branch .., _, h => by
    obtain ⟨condition', hcondition, h⟩ := bind_eq_ok.1 h
    obtain ⟨body', hbody, h⟩ := bind_eq_ok.1 h
    cases h
    exact .cons hcondition (exprsOfAll_of_expandSpecialAll hbody)

theorem exprsOfAll_of_expandSpecialAll : ∀ {ss ss' : List Stmt},
    expandSpecialAll samples ss = .ok ss' →
      List.Forall₂ (fun e e' => e.expandSpecial samples = .ok e') (exprsOfAll ss) (exprsOfAll ss')
  | [], _, h => by
    cases h
    exact .nil
  | s :: rest, _, h => by
    obtain ⟨s', rest', hs, hrest, rfl⟩ := (expandSpecial_rewritesEach samples).cons_eq_ok h
    exact List.rel_append (exprs_of_expandSpecial hs) (exprsOfAll_of_expandSpecialAll hrest)

end

mutual

/-- Where no special function is called, there is nothing to expand. -/
theorem expandSpecial_of_exprs : ∀ {s : Stmt}, (∀ e ∈ s.exprs, e.specials = []) →
    s.expandSpecial samples = .ok s
  | assign .., h | sample .., h => by
    obtain ⟨hlhs, hrhs⟩ := List.forall_mem_cons.1 h
    have hrhs := List.forall_mem_singleton.1 hrhs
    rw [expandSpecial, Expr.expandSpecial_of_specials hlhs, Expr.expandSpecial_of_specials hrhs]
    rfl
  | loop .., h => by
    obtain ⟨hlower, h⟩ := List.forall_mem_cons.1 h
    obtain ⟨hupper, hbody⟩ := List.forall_mem_cons.1 h
    rw [expandSpecial, Expr.expandSpecial_of_specials hlower, Expr.expandSpecial_of_specials hupper,
      expandSpecialAll_of_exprsOfAll hbody]
    rfl
  | branch .., h => by
    obtain ⟨hcondition, hbody⟩ := List.forall_mem_cons.1 h
    rw [expandSpecial, Expr.expandSpecial_of_specials hcondition,
      expandSpecialAll_of_exprsOfAll hbody]
    rfl

theorem expandSpecialAll_of_exprsOfAll : ∀ {ss : List Stmt},
    (∀ e ∈ exprsOfAll ss, e.specials = []) → expandSpecialAll samples ss = .ok ss
  | [], _ => rfl
  | s :: rest, h => by
    obtain ⟨hs, hrest⟩ := List.forall_mem_append.1 h
    rw [expandSpecialAll, expandSpecial_of_exprs hs, expandSpecialAll_of_exprsOfAll hrest]
    rfl

end

mutual

/-- An expansion that makes a statement of the same form had nothing to expand. -/
theorem exprs_of_same : ∀ {s s' : Stmt}, s.expandSpecial samples = .ok s' → s'.same s →
    ∀ e ∈ s.exprs, e.specials = []
  | assign .., _, h, hsame => by
    obtain ⟨lhs', rhs', hlhs, hrhs, rfl⟩ := expandSpecial_assign_eq_ok h
    simp only [same, Bool.and_eq_true] at hsame
    exact List.forall_mem_cons.2 ⟨Expr.specials_of_same hlhs hsame.1,
      List.forall_mem_singleton.2 (Expr.specials_of_same hrhs hsame.2)⟩
  | sample .., _, h, hsame => by
    obtain ⟨lhs', rhs', hlhs, hrhs, rfl⟩ := expandSpecial_sample_eq_ok h
    simp only [same, Bool.and_eq_true] at hsame
    exact List.forall_mem_cons.2 ⟨Expr.specials_of_same hlhs hsame.1,
      List.forall_mem_singleton.2 (Expr.specials_of_same hrhs hsame.2)⟩
  | loop .., _, h, hsame => by
    obtain ⟨lower', hlower, h⟩ := bind_eq_ok.1 h
    obtain ⟨upper', hupper, h⟩ := bind_eq_ok.1 h
    obtain ⟨body', hbody, h⟩ := bind_eq_ok.1 h
    cases h
    simp only [same, Bool.and_eq_true] at hsame
    exact List.forall_mem_cons.2 ⟨Expr.specials_of_same hlower hsame.1.1.2,
      List.forall_mem_cons.2 ⟨Expr.specials_of_same hupper hsame.1.2,
        exprsOfAll_of_sameAll hbody hsame.2⟩⟩
  | branch .., _, h, hsame => by
    obtain ⟨condition', hcondition, h⟩ := bind_eq_ok.1 h
    obtain ⟨body', hbody, h⟩ := bind_eq_ok.1 h
    cases h
    simp only [same, Bool.and_eq_true] at hsame
    exact List.forall_mem_cons.2 ⟨Expr.specials_of_same hcondition hsame.1,
      exprsOfAll_of_sameAll hbody hsame.2⟩

theorem exprsOfAll_of_sameAll : ∀ {ss ss' : List Stmt}, expandSpecialAll samples ss = .ok ss' →
    sameAll ss' ss → ∀ e ∈ exprsOfAll ss, e.specials = []
  | [], _, _, _ => nofun
  | s :: rest, _, h, hsame => by
    obtain ⟨s', rest', hs, hrest, rfl⟩ := (expandSpecial_rewritesEach samples).cons_eq_ok h
    simp only [sameAll, Bool.and_eq_true] at hsame
    exact List.forall_mem_append.2 ⟨exprs_of_same hs hsame.1, exprsOfAll_of_sameAll hrest hsame.2⟩

end

end Stmt

theorem flatMap_of_forall₂ {α β γ : Type} {R : α → β → Prop} {f : α → List γ} {g : β → List γ}
    {as : List α} {bs : List β} (hs : List.Forall₂ R as bs) (h : ∀ a b, R a b → g b = f a) :
    bs.flatMap g = as.flatMap f := by
  induction hs with
  | nil => rfl
  | cons hab _ ih => rw [List.flatMap_cons, List.flatMap_cons, h _ _ hab, ih]

namespace Program

/-- The special functions that a program calls, at any depth and in any position. -/
def specials (p : Program) : List SpecialFunction :=
  (Stmt.exprsOfAll p.statements).flatMap Expr.specials

/-- The distributions that the expansion of a program puts in, in order. -/
def insertions (p : Program) : List Expr :=
  (Stmt.exprsOfAll p.statements).flatMap (Expr.insertions (Stmt.samplesAll p.statements))

theorem specials_eq_nil {p : Program} :
    p.specials = [] ↔ ∀ e ∈ Stmt.exprsOfAll p.statements, e.specials = [] :=
  List.flatMap_eq_nil_iff

/-- In an expanded program, the calls of special functions are those of the distributions that were
put in, which are right-hand sides of samples as they were written. So none is left if and only if
none of these distributions calls any. Then another expansion changes nothing; otherwise it fails or
makes a program of another form. -/
theorem specials_expandSpecial {p q : Program} (h : p.expandSpecial = .ok q) :
    q.specials = p.insertions.flatMap Expr.specials ∧
    (∀ D ∈ p.insertions, ∃ x, (x, D) ∈ Stmt.samplesAll p.statements) ∧
    (q.specials = [] ↔ ∀ D ∈ p.insertions, D.specials = []) ∧
    (q.specials = [] → q.expandSpecial = .ok q) ∧
    ∀ q', q.expandSpecial = .ok q' → q'.same q → q.specials = [] := by
  obtain ⟨ss, hss, rfl⟩ := map_eq_ok.1 h
  have hleft : specials { p with statements := ss } = p.insertions.flatMap Expr.specials := by
    rw [insertions, List.flatMap_assoc]
    exact flatMap_of_forall₂ (Stmt.exprsOfAll_of_expandSpecialAll hss)
      fun _ _ => Expr.specials_of_expandSpecial
  refine ⟨hleft, fun D hD => ?_, ?_, fun hnone => ?_, fun q' hq' hsame => ?_⟩
  · obtain ⟨e, -, hD⟩ := List.mem_flatMap.1 hD
    exact Expr.mem_of_mem_insertions hD
  · rw [hleft, List.flatMap_eq_nil_iff]
  · rw [expandSpecial, Stmt.expandSpecialAll_of_exprsOfAll (specials_eq_nil.1 hnone)]
    rfl
  · obtain ⟨ss', hss', rfl⟩ := map_eq_ok.1 hq'
    exact specials_eq_nil.2 (Stmt.exprsOfAll_of_sameAll hss' hsame)

/-! ## A distribution that asks for another one -/

/-- A normal distribution with a mean. -/
def normalWith (mean : Expr) : Expr := .call "dnorm" [mean, .literal (.int 1) 0] none

/-- Samples `y`, and `x` around a cumulative probability of `y`; asks for one of `x`. -/
def asking : Program :=
  ⟨[.sample (.name "y") (normalWith (.literal (.int 0) 0)) none,
    .sample (.name "x")
      (normalWith (.call "cumulative" [.name "y", .literal (.int 0) 0] none)) none,
    .assign (.name "z") (.call "cumulative" [.name "x", .literal (.int 1) 0] none) none], none⟩

/-- What `asking` is expanded to. Where `x` is asked for, `y` is still asked for. -/
def asked : Program :=
  ⟨[.sample (.name "y") (normalWith (.literal (.int 0) 0)) none,
    .sample (.name "x")
      (normalWith (.call "cdf" [normalWith (.literal (.int 0) 0), .literal (.int 0) 0] none)) none,
    .assign (.name "z") (.call "cdf"
      [normalWith (.call "cumulative" [.name "y", .literal (.int 0) 0] none),
        .literal (.int 1) 0] none) none], none⟩

theorem expandSpecial_asking : asking.expandSpecial = .ok asked := rfl

theorem specials_expandSpecial_asking : asking.expandSpecial = .ok asked ∧
    asked.specials = asking.insertions.flatMap Expr.specials ∧
    (∀ D ∈ asking.insertions, ∃ x, (x, D) ∈ Stmt.samplesAll asking.statements) ∧
    (asked.specials = [] ↔ ∀ D ∈ asking.insertions, D.specials = []) ∧
    (asked.specials = [] → asked.expandSpecial = .ok asked) ∧
    ∀ q', asked.expandSpecial = .ok q' → q'.same asked → asked.specials = [] :=
  ⟨expandSpecial_asking, specials_expandSpecial expandSpecial_asking⟩

/-- An expanded program may still call a special function, and another expansion may go on. -/
theorem expandSpecial_leaves_calls : ¬ ∀ p q : Program, p.expandSpecial = .ok q →
    q.specials = [] ∧ q.expandSpecial = .ok q := by
  intro claim
  have hnone : asked.specials = [] := (claim asking asked expandSpecial_asking).1
  cases hnone

end Program

end PlateModel
