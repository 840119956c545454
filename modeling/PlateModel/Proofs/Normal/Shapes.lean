import PlateModel.Proofs.Normal.SingleCells
import PlateModel.Proofs.Resolution.OuterNames

/-!
# The shape of validated programs

What validation returns has the shape that later steps rely on, in every statement at any depth and
in every expression at any depth of these: only names stand before indices, of which there is at
least one, ranges have no step, every call is known, the sides of definitions are of their kinds. A
program of this shape is what validation returns for it.

What stands before `[]` is not looked at by validation, which writes `x[]` as `x[:]`. Nor is the
function of a call on the left of `=`, which is the concern of the moving of link functions.

* `Program.WellShaped`: the shape of a program, said of its statements and subterms one by one.
* `Program.validate_eq_self`: validation leaves a program of the right shape as it is.
* `Program.shape_of_validate`: validation returns programs of the right shape.
* `Program.validate_exceptions`: an unknown call on the left, and more than a name before `[]`.
-/

namespace PlateModel

/-! ## Subterms -/

namespace Expr

mutual

/-- An expression and everything in it. What stands before indices is left out: it should be a name,
with nothing in it. -/
def subterms : Expr → List Expr
  | literal v m => [literal v m]
  | name x => [name x]
  | index base is l => index base is l :: subtermsOfAll is
  | call f args l => call f args l :: subtermsOfAll args
  | range a b l => range a b l :: (subterms a ++ subterms b)
  | stepped a b s l => stepped a b s l :: (subterms a ++ (subterms b ++ subterms s))
  | colon l => [colon l]
  | array xs shape l => array xs shape l :: subtermsOfAll xs

/-- Some expressions and everything in them. -/
def subtermsOfAll : List Expr → List Expr
  | [] => []
  | e :: es => subterms e ++ subtermsOfAll es

end

/-- What a link function on the left of `=` is applied to, or the left-hand side itself. -/
def unlinked : Expr → Expr
  | call _ [e] _ => e
  | e => e

end Expr

namespace Stmt

mutual

/-- A statement and the statements in it. -/
def nested : Stmt → List Stmt
  | assign lhs rhs l => [assign lhs rhs l]
  | sample lhs rhs l => [sample lhs rhs l]
  | loop i lower upper body l => loop i lower upper body l :: nestedOfAll body
  | branch condition body l => branch condition body l :: nestedOfAll body

/-- Some statements and the statements in them. -/
def nestedOfAll : List Stmt → List Stmt
  | [] => []
  | s :: rest => nested s ++ nestedOfAll rest

end

/-- The expressions that a statement itself is made of, and everything in them. A link function on
the left of `=` is left out. -/
def subterms : Stmt → List Expr
  | assign lhs rhs _ => lhs.unlinked.subterms ++ rhs.subterms
  | sample lhs rhs _ => lhs.subterms ++ rhs.subterms
  | loop _ lower upper _ _ => lower.subterms ++ upper.subterms
  | branch condition _ _ => condition.subterms

/-- The expressions of some statements and everything in them. -/
def subtermsOfAll (ss : List Stmt) : List Expr := (nestedOfAll ss).flatMap subterms

end Stmt

namespace Program

/-- The statements of a program at any depth. -/
def nested (p : Program) : List Stmt := Stmt.nestedOfAll p.statements

/-- The expressions of a program at any depth. -/
def subterms (p : Program) : List Expr := Stmt.subtermsOfAll p.statements

end Program

/-! ## The right shape -/

/-- A name with so many arguments is an operator, a function of the table, a distribution or a
function of a stochastic variable. -/
def KnownCall (f : String) (arity : Nat) : Prop :=
  (Operator.of? f arity).isSome ∨ (Function.ofName? f).isSome ∨ (Family.ofName? f).isSome ∨
    (SpecialFunction.ofName? f).isSome

theorem isKnownCall_iff {f : String} {arity : Nat} :
    Expr.isKnownCall f arity ↔ KnownCall f arity := by
  unfold Expr.isKnownCall KnownCall Callee.of?
  cases Operator.of? f arity <;> cases Family.ofName? f <;> cases Function.ofName? f <;> simp

namespace Expr

/-- An expression is a name. -/
def IsName (e : Expr) : Prop := ∃ x, e = name x

/-- An expression is a name or an array reference. -/
def IsTarget (e : Expr) : Prop := e.IsName ∨ ∃ base is l, e = index base is l

/-- An expression is the call of a distribution. -/
def IsDistribution (e : Expr) : Prop := ∃ f args l, e = call f args l ∧ isDistribution f

/-- References are to named arrays and have indices, ranges have no step, calls are known. -/
def Proper : Expr → Prop
  | index base is _ => base.IsName ∧ is ≠ []
  | stepped .. => False
  | call f args _ => KnownCall f args.length
  | _ => True

/-- A reference stands for one among the given expressions that has no indices. -/
def Completes (ts : List Expr) (e : Expr) : Prop :=
  ∃ base l, e = index base [colon l] l ∧ index base [] l ∈ ts

theorem Completes.mono {ts ts' : List Expr} {e : Expr} (h : e.Completes ts) (hts : ts ⊆ ts') :
    e.Completes ts' := by
  obtain ⟨base, l, rfl, hmem⟩ := h
  exact ⟨base, l, rfl, hts hmem⟩

end Expr

/-- The left-hand side of a definition is a name or an array reference, on the left of `=` also the
call of a function for one of these; what is drawn from is a distribution; the variable of a loop is
an identifier. -/
def Stmt.Proper : Stmt → Prop
  | assign lhs _ _ => lhs.unlinked.IsTarget
  | sample lhs rhs _ => lhs.IsTarget ∧ rhs.IsDistribution
  | loop i .. => Text.isIdentifier i
  | branch .. => True

/-- The shape that validation is to establish. -/
structure Program.WellShaped (p : Program) : Prop where
  statements : ∀ s ∈ p.nested, s.Proper
  subterms : ∀ e ∈ p.subterms, e.Proper

/-! ## Expressions -/

namespace Expr

theorem length_of_validateAll {es es' : List Expr} (h : validateAll es = .ok es') :
    es'.length = es.length := by
  induction es generalizing es' with
  | nil => cases h; rfl
  | cons e es ih =>
    obtain ⟨e', -, h⟩ := bind_eq_ok.1 h
    obtain ⟨rest, hrest, h⟩ := bind_eq_ok.1 h
    cases h
    rw [List.length_cons, List.length_cons, ih hrest]

theorem known_of_validate {f : String} {args : List Expr} {l : Option Location} {e' : Expr}
    (h : (call f args l).validate = .ok e') : KnownCall f args.length := by
  rw [validate] at h
  split at h
  · cases h
  · next hknown => exact isKnownCall_iff.1 (by simpa using hknown)

theorem isName_of_checkBase {base : Expr} {is : List Expr} {l : Option Location}
    (h : checkBase base is l = .ok ()) : base.IsName := by
  cases base with
  | name x => exact ⟨x, rfl⟩
  | _ => cases h

/-- The expressions `es` are proper, or they stand for references in `ts` without indices. -/
def ShapedFrom (ts es : List Expr) : Prop := ∀ e ∈ es, e.Proper ∨ e.Completes ts

theorem ShapedFrom.mono {ts ts' es : List Expr} (h : ShapedFrom ts es) (hts : ts ⊆ ts') :
    ShapedFrom ts' es := fun e he => (h e he).imp_right fun hcompletes => hcompletes.mono hts

theorem ShapedFrom.cons {t e : Expr} {ts es : List Expr} (he : e.Proper)
    (hes : ShapedFrom ts es) : ShapedFrom (t :: ts) (e :: es) :=
  List.forall_mem_cons.2 ⟨.inl he, hes.mono (List.subset_cons_self t ts)⟩

theorem ShapedFrom.append {ts ts' es es' : List Expr} (hes : ShapedFrom ts es)
    (hes' : ShapedFrom ts' es') : ShapedFrom (ts ++ ts') (es ++ es') :=
  List.forall_mem_append.2 ⟨hes.mono (List.subset_append_left ts ts'),
    hes'.mono (List.subset_append_right ts ts')⟩

mutual

/-- Validation returns an expression of the right shape. -/
theorem shaped_of_validate : ∀ {e e' : Expr}, e.validate = .ok e' →
    ShapedFrom e.subterms e'.subterms
  | literal .., _, h | name _, _, h | colon _, _, h => by
    cases h
    exact List.forall_mem_singleton.2 (.inl trivial)
  | index base [] l, _, h => by
    cases h
    exact List.forall_mem_cons.2 ⟨.inr ⟨base, l, rfl, List.mem_singleton_self _⟩,
      List.forall_mem_singleton.2 (.inl trivial)⟩
  | index base (i :: is) l, _, h => by
    obtain ⟨_, hcheck, h⟩ := bind_eq_ok.1 h
    obtain ⟨js, hjs, h⟩ := bind_eq_ok.1 h
    cases h
    have hne : js ≠ [] := List.ne_nil_of_length_pos (by simp [length_of_validateAll hjs])
    exact .cons ⟨isName_of_checkBase hcheck, hne⟩ (shaped_of_validateAll hjs)
  | call f args l, _, h => by
    have hknown := known_of_validate h
    obtain ⟨args', hargs, rfl⟩ := validate_call_eq_ok h
    rw [← length_of_validateAll hargs] at hknown
    exact .cons hknown (shaped_of_validateAll hargs)
  | range a b l, _, h => by
    obtain ⟨a', ha, h⟩ := bind_eq_ok.1 h
    obtain ⟨b', hb, h⟩ := bind_eq_ok.1 h
    cases h
    exact .cons trivial (.append (shaped_of_validate ha) (shaped_of_validate hb))
  | stepped .., _, h => by cases h
  | array xs shape l, _, h => by
    obtain ⟨xs', hxs, h⟩ := bind_eq_ok.1 h
    cases h
    exact .cons trivial (shaped_of_validateAll hxs)

theorem shaped_of_validateAll : ∀ {es es' : List Expr}, validateAll es = .ok es' →
    ShapedFrom (subtermsOfAll es) (subtermsOfAll es')
  | [], _, h => by cases h; exact nofun
  | e :: es, _, h => by
    obtain ⟨e', he, h⟩ := bind_eq_ok.1 h
    obtain ⟨es', hes, h⟩ := bind_eq_ok.1 h
    cases h
    exact .append (shaped_of_validate he) (shaped_of_validateAll hes)

end

mutual

/-- Validation leaves an expression of the right shape as it is. -/
theorem validate_of_proper : ∀ {e : Expr}, (∀ t ∈ e.subterms, t.Proper) → e.validate = .ok e
  | literal .., _ | name _, _ | colon _, _ => rfl
  | index base [] l, h => absurd rfl (h _ (List.mem_cons_self ..)).2
  | index base (i :: is) l, h => by
    obtain ⟨⟨⟨x, rfl⟩, -⟩, his⟩ := List.forall_mem_cons.1 h
    rw [validate, validateAll_of_proper his]
    rfl
  | call f args l, h => by
    obtain ⟨hknown, h⟩ := List.forall_mem_cons.1 h
    rw [validate, if_neg (by simpa using isKnownCall_iff.2 hknown), validateAll_of_proper h]
    rfl
  | range a b l, h => by
    obtain ⟨ha, hb⟩ := List.forall_mem_append.1 (List.forall_mem_cons.1 h).2
    rw [validate, validate_of_proper ha, validate_of_proper hb]
    rfl
  | stepped .., h => (h _ (List.mem_cons_self ..)).elim
  | array xs shape l, h => by
    rw [validate, validateAll_of_proper (List.forall_mem_cons.1 h).2]
    rfl

theorem validateAll_of_proper : ∀ {es : List Expr}, (∀ t ∈ subtermsOfAll es, t.Proper) →
    validateAll es = .ok es
  | [], _ => rfl
  | e :: es, h => by
    obtain ⟨he, hes⟩ := List.forall_mem_append.1 h
    rw [validateAll, validate_of_proper he, validateAll_of_proper hes]
    rfl

end

/-! ## Left-hand sides -/

variable {l : Option Location} {e e' : Expr}

theorem shaped_of_validateTarget (h : e.validateTarget l = .ok e') :
    e'.IsTarget ∧ ShapedFrom e.subterms e'.subterms := by
  cases e with
  | name x =>
    cases h
    exact ⟨.inl ⟨x, rfl⟩, List.forall_mem_singleton.2 (.inl trivial)⟩
  | index base is k =>
    cases is with
    | nil => cases h
    | cons i is =>
      refine ⟨.inr ?_, shaped_of_validate h⟩
      obtain ⟨_, -, h⟩ := bind_eq_ok.1 h
      obtain ⟨js, -, h⟩ := bind_eq_ok.1 h
      cases h
      exact ⟨base, js, k, rfl⟩
  | call f args k => rcases args with _ | ⟨_, _ | ⟨_, _⟩⟩ <;> cases h
  | _ => cases h

/-- A left-hand side is the call of a link function, or it is treated as one of `~`. -/
theorem linked_cases (e : Expr) : (∃ f a k, e = call f [a] k) ∨
    e.unlinked = e ∧ ∀ l, e.validateLinkedTarget l = e.validateTarget l := by
  cases e with
  | call f args k =>
    obtain _ | ⟨a, _ | ⟨b, rest⟩⟩ := args
    · exact .inr ⟨rfl, fun _ => rfl⟩
    · exact .inl ⟨f, a, k, rfl⟩
    · exact .inr ⟨rfl, fun _ => rfl⟩
  | _ => exact .inr ⟨rfl, fun _ => rfl⟩

theorem shaped_of_validateLinkedTarget (h : e.validateLinkedTarget l = .ok e') :
    e'.unlinked.IsTarget ∧ ShapedFrom e.unlinked.subterms e'.unlinked.subterms := by
  obtain ⟨f, a, k, rfl⟩ | ⟨hunlinked, hvalidate⟩ := e.linked_cases
  · obtain ⟨a', ha, h⟩ := bind_eq_ok.1 h
    cases h
    exact shaped_of_validateTarget ha
  · rw [hvalidate] at h
    obtain ⟨htarget, hshaped⟩ := shaped_of_validateTarget h
    have hunlinked' : e'.unlinked = e' := by
      obtain ⟨x, rfl⟩ | ⟨base, is, k, rfl⟩ := htarget <;> rfl
    rw [hunlinked, hunlinked']
    exact ⟨htarget, hshaped⟩

theorem validateTarget_of_proper (htarget : e.IsTarget) (h : ∀ t ∈ e.subterms, t.Proper) :
    e.validateTarget l = .ok e := by
  obtain ⟨x, rfl⟩ | ⟨base, is, k, rfl⟩ := htarget
  · rfl
  · cases is with
    | nil => exact absurd rfl (h _ (List.mem_cons_self ..)).2
    | cons i is => exact validate_of_proper h

theorem validateLinkedTarget_of_proper (htarget : e.unlinked.IsTarget)
    (h : ∀ t ∈ e.unlinked.subterms, t.Proper) : e.validateLinkedTarget l = .ok e := by
  obtain ⟨f, a, k, rfl⟩ | ⟨hunlinked, hvalidate⟩ := e.linked_cases
  · have ha : a.validateTarget l = .ok a := validateTarget_of_proper htarget h
    rw [validateLinkedTarget, ha]
    rfl
  · rw [hvalidate]
    rw [hunlinked] at htarget h
    exact validateTarget_of_proper htarget h

end Expr

/-! ## Statements -/

namespace Stmt

variable {s s' : Stmt} {ss ss' : List Stmt}

/-- The statements `ss'` have the right shape, and so have their subterms, if these do not stand for
references without indices in the statements `ss`. -/
def ShapedFrom (ss ss' : List Stmt) : Prop :=
  ∀ s ∈ ss', s.Proper ∧ Expr.ShapedFrom (ss.flatMap subterms) s.subterms

theorem ShapedFrom.cons (hs : s'.Proper) (hterms : Expr.ShapedFrom s.subterms s'.subterms)
    (hss : ShapedFrom ss ss') : ShapedFrom (s :: ss) (s' :: ss') := by
  rw [ShapedFrom, List.flatMap_cons]
  exact List.forall_mem_cons.2 ⟨⟨hs, hterms.mono (List.subset_append_left ..)⟩,
    fun t ht => ⟨(hss t ht).1, (hss t ht).2.mono (List.subset_append_right ..)⟩⟩

theorem ShapedFrom.append {ts ts' : List Stmt} (hss : ShapedFrom ss ss')
    (hts : ShapedFrom ts ts') : ShapedFrom (ss ++ ts) (ss' ++ ts') := by
  rw [ShapedFrom, List.flatMap_append]
  exact List.forall_mem_append.2
    ⟨fun t ht => ⟨(hss t ht).1, (hss t ht).2.mono (List.subset_append_left ..)⟩,
      fun t ht => ⟨(hts t ht).1, (hts t ht).2.mono (List.subset_append_right ..)⟩⟩

theorem shapedFrom_nil : ShapedFrom [] [] := nofun

theorem isDistribution_of_checkSampled {rhs rhs' : Expr} {l : Option Location}
    (hcheck : checkSampled rhs l = .ok ()) (h : rhs.validate = .ok rhs') :
    rhs'.IsDistribution := by
  cases rhs with
  | call f args k =>
    obtain ⟨args', -, rfl⟩ := Expr.validate_call_eq_ok h
    refine ⟨f, args', k, rfl, ?_⟩
    rw [checkSampled] at hcheck
    split at hcheck
    · assumption
    · cases hcheck
  | _ => cases hcheck

theorem checkSampled_of_isDistribution {rhs : Expr} {l : Option Location}
    (h : rhs.IsDistribution) : checkSampled rhs l = .ok () := by
  obtain ⟨f, args, k, rfl, hf⟩ := h
  rw [checkSampled, if_pos hf]

mutual

/-- Validation returns a statement of the right shape, at any depth. -/
theorem shaped_of_validate : ∀ {s s' : Stmt}, s.validate = .ok s' →
    ShapedFrom s.nested s'.nested
  | assign lhs rhs l, _, h => by
    obtain ⟨lhs', hlhs, h⟩ := bind_eq_ok.1 h
    obtain ⟨rhs', hrhs, h⟩ := bind_eq_ok.1 h
    cases h
    obtain ⟨htarget, hshaped⟩ := Expr.shaped_of_validateLinkedTarget hlhs
    exact .cons htarget (.append hshaped (Expr.shaped_of_validate hrhs)) shapedFrom_nil
  | sample lhs rhs l, _, h => by
    obtain ⟨lhs', hlhs, h⟩ := bind_eq_ok.1 h
    obtain ⟨_, hcheck, h⟩ := bind_eq_ok.1 h
    obtain ⟨rhs', hrhs, h⟩ := bind_eq_ok.1 h
    cases h
    obtain ⟨htarget, hshaped⟩ := Expr.shaped_of_validateTarget hlhs
    exact .cons ⟨htarget, isDistribution_of_checkSampled hcheck hrhs⟩
      (.append hshaped (Expr.shaped_of_validate hrhs)) shapedFrom_nil
  | loop i lower upper body l, _, h => by
    rw [validate] at h
    split at h
    · cases h
    next hcounter =>
    have hidentifier : Text.isIdentifier i = true := by simpa using hcounter
    obtain ⟨lower', hlower, h⟩ := bind_eq_ok.1 h
    obtain ⟨upper', hupper, h⟩ := bind_eq_ok.1 h
    obtain ⟨body', hbody, h⟩ := bind_eq_ok.1 h
    cases h
    exact .cons hidentifier
      (.append (Expr.shaped_of_validate hlower) (Expr.shaped_of_validate hupper))
      (shaped_of_validateAll hbody)
  | branch condition body l, _, h => by
    obtain ⟨condition', hcondition, h⟩ := bind_eq_ok.1 h
    obtain ⟨body', hbody, h⟩ := bind_eq_ok.1 h
    cases h
    exact .cons trivial (Expr.shaped_of_validate hcondition) (shaped_of_validateAll hbody)

theorem shaped_of_validateAll : ∀ {ss ss' : List Stmt}, validateAll ss = .ok ss' →
    ShapedFrom (nestedOfAll ss) (nestedOfAll ss')
  | [], _, h => by
    cases h
    exact shapedFrom_nil
  | s :: rest, _, h => by
    obtain ⟨s', hs, h⟩ := bind_eq_ok.1 h
    obtain ⟨rest', hrest, h⟩ := bind_eq_ok.1 h
    cases h
    exact .append (shaped_of_validate hs) (shaped_of_validateAll hrest)

end

/-- A statement and what it says have the right shape. -/
def Sound (s : Stmt) : Prop := s.Proper ∧ ∀ t ∈ s.subterms, t.Proper

mutual

/-- Validation leaves a statement of the right shape as it is. -/
theorem validate_of_sound : ∀ {s : Stmt}, (∀ st ∈ s.nested, st.Sound) → s.validate = .ok s
  | assign lhs rhs l, h => by
    obtain ⟨htarget, hterms⟩ := List.forall_mem_singleton.1 h
    obtain ⟨hl, hr⟩ := List.forall_mem_append.1 hterms
    rw [validate, Expr.validateLinkedTarget_of_proper htarget hl, Expr.validate_of_proper hr]
    rfl
  | sample lhs rhs l, h => by
    obtain ⟨⟨htarget, hdistribution⟩, hterms⟩ := List.forall_mem_singleton.1 h
    obtain ⟨hl, hr⟩ := List.forall_mem_append.1 hterms
    rw [validate, Expr.validateTarget_of_proper htarget hl,
      checkSampled_of_isDistribution hdistribution, Expr.validate_of_proper hr]
    rfl
  | loop i lower upper body l, h => by
    obtain ⟨⟨hcounter, hterms⟩, hbody⟩ := List.forall_mem_cons.1 h
    obtain ⟨hl, hu⟩ := List.forall_mem_append.1 hterms
    have hidentifier : Text.isIdentifier i = true := hcounter
    rw [validate, hidentifier, Expr.validate_of_proper hl, Expr.validate_of_proper hu,
      validateAll_of_sound hbody]
    rfl
  | branch condition body l, h => by
    obtain ⟨⟨-, hterms⟩, hbody⟩ := List.forall_mem_cons.1 h
    rw [validate, Expr.validate_of_proper hterms, validateAll_of_sound hbody]
    rfl

theorem validateAll_of_sound : ∀ {ss : List Stmt}, (∀ st ∈ nestedOfAll ss, st.Sound) →
    validateAll ss = .ok ss
  | [], _ => rfl
  | s :: rest, h => by
    obtain ⟨hs, hrest⟩ := List.forall_mem_append.1 h
    rw [validateAll, validate_of_sound hs, validateAll_of_sound hrest]
    rfl

end

end Stmt

/-! ## Programs -/

namespace Program

variable {p q : Program}

/-- Validation leaves a program of the right shape as it is. -/
theorem validate_eq_self (h : p.WellShaped) : p.validate = .ok p := by
  have hsound (s : Stmt) (hs : s ∈ p.nested) : s.Sound :=
    ⟨h.statements s hs, fun t ht => h.subterms t (List.mem_flatMap.2 ⟨s, hs, ht⟩)⟩
  rw [validate, Stmt.validateAll_of_sound hsound]
  rfl

/-- The statements of a program that validation returns have the right shape at any depth, and so
have the expressions, unless they stand for references without indices. If only names stand before
`[]` in the program that it is made from, then all of them have, and validation returns the program
again. -/
theorem shape_of_validate (h : p.validate = .ok q) :
    (∀ s ∈ q.nested, s.Proper) ∧ (∀ e ∈ q.subterms, e.Proper ∨ e.Completes p.subterms) ∧
      ((∀ base l, .index base [] l ∈ p.subterms → base.IsName) →
        q.WellShaped ∧ q.validate = .ok q) := by
  obtain ⟨statements, hstatements, rfl⟩ := map_eq_ok.1 h
  have hshaped := Stmt.shaped_of_validateAll hstatements
  have hterms : Expr.ShapedFrom p.subterms (subterms { p with statements }) := by
    intro e he
    obtain ⟨s, hs, he⟩ := List.mem_flatMap.1 he
    exact (hshaped s hs).2 e he
  refine ⟨fun s hs => (hshaped s hs).1, hterms, fun hbase => ?_⟩
  have hshape : WellShaped { p with statements } := by
    refine ⟨fun s hs => (hshaped s hs).1, fun e he => ?_⟩
    rcases hterms e he with hproper | ⟨base, l, rfl, hmem⟩
    · exact hproper
    · exact ⟨hbase base l hmem, List.cons_ne_nil _ _⟩
  exact ⟨hshape, validate_eq_self hshape⟩

/-- Draws the cells of an array in a loop and sums the array, with the given indices, through a link
function. -/
def summing (indices : List Expr) : Program :=
  ⟨[.loop "i" (.literal (.int 1) 0) (.literal (.int 3) 0)
      [.sample (.index (.name "x") [.name "i"] none)
        (.call "dnorm" [.literal (.int 0) 0, .literal (.int 1) 0] none) none] none,
    .assign (.call "log" [.name "s"] none) (.call "sum" [.index (.name "x") indices none] none)
      none], none⟩

theorem shape_of_validate_summing : (summing []).validate = .ok (summing [.colon none]) ∧
    (summing [.colon none]).WellShaped ∧
      (summing [.colon none]).validate = .ok (summing [.colon none]) := by
  have hvalidate : (summing []).validate = .ok (summing [.colon none]) := by
    simp only [summing, validate, Stmt.validateAll, Stmt.validate, Text.isIdentifier_counter]
    rfl
  obtain ⟨-, -, hshape⟩ := shape_of_validate hvalidate
  refine ⟨hvalidate, hshape fun base l hmem => ?_⟩
  have hterms : (summing []).subterms = [.literal (.int 1) 0, .literal (.int 3) 0,
      .index (.name "x") [.name "i"] none, .name "i",
      .call "dnorm" [.literal (.int 0) 0, .literal (.int 1) 0] none, .literal (.int 0) 0,
      .literal (.int 1) 0, .name "s", .call "sum" [.index (.name "x") [] none] none,
      .index (.name "x") [] none] := rfl
  simp only [hterms, List.mem_cons, List.not_mem_nil, reduceCtorEq, Expr.index.injEq, false_and,
    and_false, false_or, or_false] at hmem
  exact ⟨"x", hmem.1⟩

/-- Defines a name through a function that nothing is known about. -/
def obscure : Program :=
  ⟨[.assign (.call "foo" [.name "x"] none) (.literal (.int 1) 0) none], none⟩

/-- Takes all indices of a single cell. -/
def overreaching : Program :=
  ⟨[.assign (.name "y") (.index (.index (.name "x") [.literal (.int 1) 0] none) [] none) none],
    none⟩

/-- Validation returns an unknown call on the left of `=`, and a reference whose base is another
reference, which it refuses the next time. -/
theorem validate_exceptions :
    (∃ lhs rhs l f args k, obscure.validate = .ok obscure ∧ .assign lhs rhs l ∈ obscure.nested ∧
      .call f args k ∈ lhs.subterms ∧ ¬ KnownCall f args.length) ∧
    ∃ q problem, overreaching.validate = .ok q ∧ ¬ q.WellShaped ∧ q.validate = .error problem := by
  refine ⟨⟨_, _, _, _, _, _, rfl, List.mem_singleton_self _, List.mem_cons_self .., ?_⟩,
    _, _, rfl, fun h => ?_, rfl⟩
  · exact fun h => absurd (isKnownCall_iff.2 h) (by decide)
  · have hcopy := validate_eq_self h
    cases hcopy

end Program

end PlateModel
