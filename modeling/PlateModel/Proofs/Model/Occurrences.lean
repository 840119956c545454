import PlateModel.Proofs.Model.Substitution

/-!
# Where a statement stands in a program

A statement stands in a program under loops and conditionals. An occurrence of it comes with an
integer for the variable of each loop around it. If literals are put in the place of names first,
then what stands in the result is what stands in the original, with all these replaced.

* `Stmt.Occurs`: a statement among others, with integers for the variables of the loops around it.
* `Stmt.Occurs.trans`: occurrences in an occurrence.
* `Stmt.Occurs.of_substitute`: occurrences after a substitution.
* `Stmt.StemsFrom`: a statement is what others say at integers for their loops.
-/

namespace PlateModel.Stmt

/-- Under loops whose variables have the given integers, a statement is one of some statements. The
variables of inner loops come first. -/
inductive Occurs : List Stmt → Mapping → Stmt → Prop
  | here {ss : List Stmt} {st : Stmt} (h : st ∈ ss) : Occurs ss [] st
  | loop {ss body : List Stmt} {i : String} {lower upper : Expr} {l : Option Location}
    {env : Mapping} {st : Stmt} (h : .loop i lower upper body l ∈ ss) (k : Int)
    (hbody : Occurs body env st) : Occurs ss (env ++ [(i, .ofNumber (.int k))]) st
  | branch {ss body : List Stmt} {guard : Expr} {l : Option Location} {env : Mapping} {st : Stmt}
    (h : .branch guard body l ∈ ss) (hbody : Occurs body env st) : Occurs ss env st

namespace Occurs

variable {ss ss' : List Stmt} {env env' : Mapping} {st st' : Stmt}

theorem literal (h : Occurs ss env st) : env.Literal := by
  induction h with
  | here => exact Mapping.literal_nil
  | loop _ k _ ih =>
    intro x e hx
    rw [Mapping.lookup_append] at hx
    rcases Option.or_eq_some_iff.1 hx with hx | ⟨-, hx⟩
    · exact ih hx
    · exact (Mapping.literal_nil.cons _ (.int k)) hx
  | branch _ _ ih => exact ih

theorem mono (h : Occurs ss env st) (hss : ss ⊆ ss') : Occurs ss' env st := by
  cases h with
  | here h => exact .here (hss h)
  | loop h k hbody => exact .loop (hss h) k hbody
  | branch h hbody => exact .branch (hss h) hbody

/-- What stands in a statement stands where this statement stands. -/
theorem trans (h : Occurs ss env st) (h' : Occurs [st] env' st') : Occurs ss (env' ++ env) st' := by
  induction h with
  | here h =>
    rw [List.append_nil]
    exact h'.mono fun _ hx => List.mem_singleton.1 hx ▸ h
  | loop h k _ ih =>
    rw [← List.append_assoc]
    exact .loop h k (ih h')
  | branch h _ ih => exact .branch h (ih h')

/-- An occurrence among some statements is one in one of them. -/
theorem exists_singleton (h : Occurs ss env st) : ∃ st₀ ∈ ss, Occurs [st₀] env st := by
  cases h with
  | here h => exact ⟨st, h, .here (List.mem_singleton_self _)⟩
  | loop h k hbody => exact ⟨_, h, .loop (List.mem_singleton_self _) k hbody⟩
  | branch h hbody => exact ⟨_, h, .branch (List.mem_singleton_self _) hbody⟩

/-- The variable of a loop is not replaced in its body, so it makes no difference whether the names
of an enclosing loop are replaced before. -/
theorem lookup_turn (m n : Mapping) (i : String) (e : Expr) (x : String) :
    ((m ++ n.without i) ++ [(i, e)]).lookup x = ((m ++ [(i, e)]) ++ n).lookup x := by
  simp only [Mapping.lookup_append, Mapping.lookup_without, List.lookup_cons, List.lookup_nil]
  by_cases h : x = i
  · simp [h]
  · have : (x == i) = false := by simpa using h
    simp [h, this]

theorem mem_substituteAll {m : Mapping} {ss : List Stmt} : st ∈ substituteAll m ss ↔
    ∃ st₀ ∈ ss, st = st₀.substitute m := by
  induction ss with
  | nil => simp [substituteAll]
  | cons s ss ih => simp only [substituteAll, List.mem_cons, ih, exists_eq_or_imp]

/-- What stands among some statements after a substitution stands among them before. -/
theorem of_substituteAll {m : Mapping} (hm : m.Literal) (h : Occurs (substituteAll m ss) env st) :
    ∃ st₀, Occurs ss env st₀ ∧ st.substitute env = st₀.substitute (env ++ m) := by
  generalize hts : substituteAll m ss = ts at h
  induction h generalizing ss m with
  | here hmem =>
    subst hts
    obtain ⟨st₀, hst₀, rfl⟩ := mem_substituteAll.1 hmem
    exact ⟨st₀, .here hst₀, substitute_nil _⟩
  | @loop _ body i lower upper l env st h k hbody ih =>
    subst hts
    obtain ⟨st₀, h, heq⟩ := mem_substituteAll.1 h
    cases st₀ with
    | loop i' lower' upper' body' l' =>
      cases heq
      obtain ⟨st₁, h₁, heq⟩ := ih (hm.without i) rfl
      have henv : env.Literal := hbody.literal
      refine ⟨st₁, .loop h k h₁, ?_⟩
      have hinner : Mapping.Literal (env ++ m.without i) := by
        intro x e hx
        rw [Mapping.lookup_append] at hx
        rcases Option.or_eq_some_iff.1 hx with hx | ⟨-, hx⟩
        · exact henv hx
        · exact hm.without i hx
      rw [← substitute_append henv, heq, substitute_append hinner]
      exact substitute_congr (lookup_turn env m i _) st₁
    | _ => cases heq
  | @branch _ body guard l env st h hbody ih =>
    subst hts
    obtain ⟨st₀, h, heq⟩ := mem_substituteAll.1 h
    cases st₀ with
    | branch guard' body' l' =>
      cases heq
      obtain ⟨st₁, h₁, heq⟩ := ih hm rfl
      exact ⟨st₁, .branch h h₁, heq⟩
    | _ => cases heq

theorem of_substitute {m : Mapping} (hm : m.Literal) (h : Occurs [st.substitute m] env st') :
    ∃ st₀, Occurs [st] env st₀ ∧ st'.substitute env = st₀.substitute (env ++ m) :=
  of_substituteAll hm h

end Occurs

/-- A statement is one that stands among others, with integers for the variables of the loops around
it and expressions for further names. -/
def StemsFrom (ss : List Stmt) (env : Mapping) (st : Stmt) : Prop :=
  ∃ inner source, Occurs ss inner source ∧ st = source.substitute (inner ++ env)

section StemsFrom

variable {ss ss' : List Stmt} {env : Mapping} {st : Stmt}

theorem stemsFrom_of_mem (env : Mapping) (h : st ∈ ss) : StemsFrom ss env (st.substitute env) :=
  ⟨[], st, .here h, rfl⟩

theorem StemsFrom.mono (h : StemsFrom ss env st) (hss : ss ⊆ ss') : StemsFrom ss' env st := by
  obtain ⟨inner, source, hsource, rfl⟩ := h
  exact ⟨inner, source, hsource.mono hss, rfl⟩

/-- What stems from statements that stem from others stems from these. -/
theorem StemsFrom.trans (h : StemsFrom ss' [] st) (hss' : ∀ st' ∈ ss', StemsFrom ss [] st') :
    StemsFrom ss [] st := by
  obtain ⟨inner, source, hsource, rfl⟩ := h
  obtain ⟨st₀, hst₀, hsource⟩ := hsource.exists_singleton
  obtain ⟨outer, origin, horigin, rfl⟩ := hss' st₀ hst₀
  rw [List.append_nil] at hsource ⊢
  obtain ⟨source₀, h₀, heq⟩ := hsource.of_substitute horigin.literal
  exact ⟨inner ++ outer, source₀, horigin.trans h₀, by rw [heq, List.append_nil]⟩

end StemsFrom

end PlateModel.Stmt
