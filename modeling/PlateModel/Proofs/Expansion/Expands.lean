import PlateModel.Expansion.Resolve
import PlateModel.Proofs.Model.Substitution
import PlateModel.Proofs.Resolution.Replay

/-!
# The expansion of statements in a state

A finished state says what the bounds of loops and the guards of conditionals come to, and with that
what statements expand to, without regard to the order in which anything was found out: a loop to
its body for every integer between its bounds, a conditional to its body or to nothing. Only what
needs no array to grow counts, since the state is finished.

* `State.Bound`, `State.Guard`, `State.Denotes`, `State.LowersTo`: what bounds, guards, left-hand
  sides and right-hand sides come to in a state.
* `Unfolds`, `Expands`: what statements unfold to, and the definitions that they expand to.
* `Unfolds.append`, `Unfolds.append_inv`, `Unfolds.perm`: statements unfold one by one.
* `Unfolds.unique`: they expand to one list of definitions each.
-/

namespace PlateModel

/-- The integer that a number stands for as a bound of a loop. Truth values stand for none, and
neither do integers that are too large for a number in binary. -/
def Number.bound? (n : Number) : Option Int := n.toFloat?.bind fun _ => n.position?

/-- The symbol that a left-hand side stands for, unless it is a slice. -/
def symbol? : Symbol ⊕ Reference → Option Symbol
  | .inl x => some x
  | .inr (.one c) => some (.cell c)
  | .inr (.block ..) => none

namespace State

variable {t : State}

/-- An expression comes to a number. -/
def ComesTo (t : State) (e : Expr) (v : Number) : Prop :=
  t.toDefinitions.resolve e t.registry = (.ok (.constant (.number v)), t.registry)

/-- A bound of a loop comes to an integer. -/
def Bound (t : State) (e : Expr) (i : Int) : Prop := ∃ v, t.ComesTo e v ∧ v.bound? = some i

/-- A guard comes to a truth value. -/
def Guard (t : State) (e : Expr) (b : Bool) : Prop := t.ComesTo e (.truth b)

/-- A left-hand side stands for a symbol. -/
def Denotes (t : State) (lhs : Expr) (x : Symbol) : Prop :=
  ∃ y, t.toDefinitions.symbolic lhs t.registry = (.ok y, t.registry) ∧ symbol? y = some x

/-- A right-hand side is an expression without array references. -/
def LowersTo (t : State) (rhs e : Expr) : Prop :=
  t.toDefinitions.lower rhs t.registry = (.ok e, t.registry)

/-- Both sides of a definition can be lowered. -/
def Lowers (t : State) : Stmt → Prop
  | .assign lhs rhs _ | .sample lhs rhs _ => (∃ x, t.Denotes lhs x) ∧ ∃ e, t.LowersTo rhs e
  | _ => False

theorem ComesTo.unique {e : Expr} {v w : Number} (h : t.ComesTo e v) (k : t.ComesTo e w) :
    v = w := by
  have eq := h.symm.trans k
  cases eq
  rfl

theorem Bound.unique {e : Expr} {i j : Int} (h : t.Bound e i) (k : t.Bound e j) : i = j := by
  obtain ⟨v, hv, hi⟩ := h
  obtain ⟨w, hw, hj⟩ := k
  rw [hv.unique hw, hj] at hi
  cases hi
  rfl

theorem Guard.unique {e : Expr} {a b : Bool} (h : t.Guard e a) (k : t.Guard e b) : a = b := by
  cases ComesTo.unique h k
  rfl

theorem Denotes.unique {lhs : Expr} {x y : Symbol} (h : t.Denotes lhs x) (k : t.Denotes lhs y) :
    x = y := by
  obtain ⟨a, ha, hx⟩ := h
  obtain ⟨b, hb, hy⟩ := k
  have eq := ha.symm.trans hb
  cases eq
  exact Option.some.inj (hx.symm.trans hy)

theorem LowersTo.unique {rhs e e' : Expr} (h : t.LowersTo rhs e) (k : t.LowersTo rhs e') :
    e = e' := by
  have eq := Eq.symm h |>.trans k
  cases eq
  rfl

end State

/-! ## Expansion -/

/-- The body of a loop, once for every integer between the bounds. -/
def turns (i : String) (a b : Int) (body : List Stmt) : List Stmt :=
  (integers a b).flatMap fun k => Stmt.substituteAll [(i, .ofNumber (.int k))] body

/-- In a state some statements unfold to some others, in order, where what stands in the place of a
loop or a conditional has been decided. -/
inductive Unfolds (leaf : Stmt → Prop) (t : State) : List Stmt → List Stmt → Prop
  | nil : Unfolds leaf t [] []
  | leaf {s : Stmt} {rest leaves : List Stmt} (hs : leaf s) (hrest : Unfolds leaf t rest leaves) :
    Unfolds leaf t (s :: rest) (s :: leaves)
  | loop {i : String} {lower upper : Expr} {a b : Int} {body rest inner leaves : List Stmt}
    {l : Option Location} (ha : t.Bound lower a) (hb : t.Bound upper b)
    (hbody : Unfolds leaf t (turns i a b body) inner) (hrest : Unfolds leaf t rest leaves) :
    Unfolds leaf t (.loop i lower upper body l :: rest) (inner ++ leaves)
  | taken {guard : Expr} {body rest inner leaves : List Stmt} {l : Option Location}
    (hguard : t.Guard guard true) (hbody : Unfolds leaf t body inner)
    (hrest : Unfolds leaf t rest leaves) :
    Unfolds leaf t (.branch guard body l :: rest) (inner ++ leaves)
  | skipped {guard : Expr} {body rest leaves : List Stmt} {l : Option Location}
    (hguard : t.Guard guard false) (hrest : Unfolds leaf t rest leaves) :
    Unfolds leaf t (.branch guard body l :: rest) leaves

/-- In a state some statements expand to some definitions: everything has been decided. -/
abbrev Expands (t : State) : List Stmt → List Stmt → Prop := Unfolds (fun s => s.isFlat) t

namespace Unfolds

variable {leaf leaf' : Stmt → Prop} {t : State} {ss ss' leaves leaves' : List Stmt}

/-- What holds of the parts of statements holds of the parts of what they unfold to. -/
theorem every {p q : Expr → Prop} (hp : Stable p) (hq : Stable q) (h : Unfolds leaf t ss leaves)
    (hss : Stmt.EveryOfAll p q ss) : Stmt.EveryOfAll p q leaves := by
  induction h with
  | nil => exact hss
  | leaf _ _ ih => exact ⟨hss.1, ih hss.2⟩
  | loop _ _ _ _ ih₁ ih₂ =>
    refine Stmt.everyOfAll_append.2 ⟨ih₁ ?_, ih₂ hss.2⟩
    rw [Stmt.everyOfAll_iff]
    intro st hst
    obtain ⟨k, -, hst⟩ := List.mem_flatMap.1 hst
    exact Stmt.everyOfAll_iff.1
      (hss.1.2.2.substituteAll hp hq (Mapping.literal_nil.cons _ (.int k))) st hst
  | taken _ _ _ ih₁ ih₂ => exact Stmt.everyOfAll_append.2 ⟨ih₁ hss.1.2, ih₂ hss.2⟩
  | skipped _ _ ih => exact ih hss.2

/-- Statements may unfold to themselves. -/
theorem refl (h : ∀ s ∈ ss, leaf s) : Unfolds leaf t ss ss := by
  induction ss with
  | nil => exact .nil
  | cons s ss ih =>
    exact .leaf (h s (List.mem_cons_self ..)) (ih fun s' hs' => h s' (List.mem_cons_of_mem s hs'))

theorem append (h : Unfolds leaf t ss leaves) (h' : Unfolds leaf t ss' leaves') :
    Unfolds leaf t (ss ++ ss') (leaves ++ leaves') := by
  induction h with
  | nil => exact h'
  | leaf hs _ ih => exact .leaf hs ih
  | loop ha hb hbody _ _ ih =>
    rw [List.append_assoc]
    exact .loop ha hb hbody ih
  | taken hguard hbody _ _ ih =>
    rw [List.append_assoc]
    exact .taken hguard hbody ih
  | skipped hguard _ ih => exact .skipped hguard ih

/-- What two lists of statements unfold to, the first unfolds to a part of. -/
theorem append_inv (h : Unfolds leaf t (ss ++ ss') leaves) :
    ∃ f f', leaves = f ++ f' ∧ Unfolds leaf t ss f ∧ Unfolds leaf t ss' f' := by
  induction ss generalizing leaves with
  | nil => exact ⟨[], leaves, rfl, .nil, h⟩
  | cons s ss ih =>
    cases h with
    | leaf hs hrest =>
      obtain ⟨f, f', rfl, h, h'⟩ := ih hrest
      exact ⟨s :: f, f', rfl, .leaf hs h, h'⟩
    | loop ha hb hbody hrest =>
      obtain ⟨f, f', rfl, h, h'⟩ := ih hrest
      exact ⟨_ ++ f, f', (List.append_assoc ..).symm, .loop ha hb hbody h, h'⟩
    | taken hguard hbody hrest =>
      obtain ⟨f, f', rfl, h, h'⟩ := ih hrest
      exact ⟨_ ++ f, f', (List.append_assoc ..).symm, .taken hguard hbody h, h'⟩
    | skipped hguard hrest =>
      obtain ⟨f, f', rfl, h, h'⟩ := ih hrest
      exact ⟨f, f', rfl, .skipped hguard h, h'⟩

/-- What statements unfold to, the first of them unfolds to a part of. -/
theorem cons_inv {s : Stmt} (h : Unfolds leaf t (s :: ss) leaves) :
    ∃ f f', leaves = f ++ f' ∧ Unfolds leaf t [s] f ∧ Unfolds leaf t ss f' := by
  rw [← List.singleton_append] at h
  exact h.append_inv

/-- Statements in another order unfold to the same in another order. -/
theorem perm (hp : ss.Perm ss') (h : Unfolds leaf t ss leaves) :
    ∃ leaves', Unfolds leaf t ss' leaves' ∧ leaves.Perm leaves' := by
  induction hp generalizing leaves with
  | nil => exact ⟨leaves, h, .refl _⟩
  | cons _ _ ih =>
    obtain ⟨f, f', rfl, hf, hrest⟩ := h.cons_inv
    obtain ⟨g, hg, hperm⟩ := ih hrest
    exact ⟨f ++ g, hf.append hg, hperm.append_left f⟩
  | swap s s' ss =>
    obtain ⟨f, f₁, rfl, hf, h₁⟩ := h.cons_inv
    obtain ⟨f', f₂, rfl, hf', h₂⟩ := h₁.cons_inv
    refine ⟨f' ++ (f ++ f₂), hf'.append (hf.append h₂), ?_⟩
    rw [← List.append_assoc, ← List.append_assoc]
    exact List.perm_append_comm.append_right f₂
  | trans _ _ ih₁ ih₂ =>
    obtain ⟨f, hf, hp₁⟩ := ih₁ h
    obtain ⟨g, hg, hp₂⟩ := ih₂ hf
    exact ⟨g, hg, hp₁.trans hp₂⟩

/-- Statements expand to only one list of definitions. -/
theorem unique {flats flats' : List Stmt} (h : Expands t ss flats) (h' : Expands t ss flats') :
    flats = flats' := by
  induction h generalizing flats' with
  | nil => cases h'; rfl
  | leaf hs _ ih =>
    cases h' with
    | leaf _ hrest => rw [ih hrest]
    | loop | taken | skipped => cases hs
  | loop ha hb _ _ ih₁ ih₂ =>
    cases h' with
    | leaf hs => cases hs
    | loop ha' hb' hbody hrest =>
      cases ha.unique ha'
      cases hb.unique hb'
      rw [ih₁ hbody, ih₂ hrest]
  | taken hguard _ _ ih₁ ih₂ =>
    cases h' with
    | leaf hs => cases hs
    | taken _ hbody hrest => rw [ih₁ hbody, ih₂ hrest]
    | skipped hguard' => cases hguard.unique hguard'
  | skipped hguard _ ih =>
    cases h' with
    | leaf hs => cases hs
    | taken hguard' => cases hguard.unique hguard'
    | skipped _ hrest => exact ih hrest

end Unfolds

end PlateModel
