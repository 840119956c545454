import PlateModel.Normal.Links
import PlateModel.Normal.Validate
import PlateModel.Proofs.Model.Parts
import PlateModel.Proofs.Model.References
import PlateModel.Proofs.Normal.SingleCells
import PlateModel.Resolution.Lowering

/-!
# Forms that no generator is compiled from

Array references, ranges and whole axes have a meaning at index positions; anywhere else there is
nothing that they could evaluate to. Lowering removes the references, and everything at their index
positions with them. It does not remove a range or a whole axis that stands elsewhere, and none of
the passes before it does so, nor does any of them bring one.

* `Expr.unlowered`, `Program.Misplaces`: these forms in an expression, and which of them stand where
  a program must not have them.
* `unlowered_of_validate`, `unlowered_of_expandSpecial`, `unlowered_of_lower`: what passes make of
  them.
* `kind_of_checkEvaluable`, `unlowered_of_checkEvaluable`: they are what keeps an expression from
  being compiled.
* `Program.only_of_normal`: what is left of them before a program is resolved.
-/

namespace PlateModel

/-- A form that means nothing outside of index positions. -/
inductive Unlowered
  | reference
  | range
  | stepped
  | colon
  deriving Repr, DecidableEq

namespace Expr

mutual

/-- The forms in an expression, outside of index positions, that no generator is compiled from. -/
def unlowered : Expr → List Unlowered
  | literal .. | name _ => []
  | index .. => [.reference]
  | call _ args _ => unloweredOfAll args
  | range .. => [.range]
  | stepped .. => [.stepped]
  | colon _ => [.colon]
  | array xs _ _ => unloweredOfAll xs

/-- The forms in some expressions that no generator is compiled from. -/
def unloweredOfAll : List Expr → List Unlowered
  | [] => []
  | x :: xs => unlowered x ++ unloweredOfAll xs

end

theorem mem_unloweredOfAll {k : Unlowered} {es : List Expr} :
    k ∈ unloweredOfAll es ↔ ∃ e ∈ es, k ∈ e.unlowered := by
  induction es with
  | nil => simp [unloweredOfAll]
  | cons e es ih => simp only [unloweredOfAll, List.mem_append, ih, List.mem_cons, exists_eq_or_imp]

/-! ## Substitution and equality -/

mutual

theorem unlowered_substitute {m : Mapping} (hm : m.Literal) : ∀ e : Expr,
    (e.substitute m).unlowered = e.unlowered
  | literal .. | index .. | range .. | stepped .. | colon _ => rfl
  | name x => by rcases substitute_name hm x with h | ⟨v, k, h⟩ <;> rw [h] <;> rfl
  | call _ args _ => unloweredOfAll_substituteAll hm args
  | array xs _ _ => unloweredOfAll_substituteAll hm xs

theorem unloweredOfAll_substituteAll {m : Mapping} (hm : m.Literal) : ∀ es : List Expr,
    unloweredOfAll (substituteAll m es) = unloweredOfAll es
  | [] => rfl
  | e :: es => by
    rw [substituteAll, unloweredOfAll, unloweredOfAll, unlowered_substitute hm e,
      unloweredOfAll_substituteAll hm es]

end

mutual

theorem unlowered_of_same : ∀ {a b : Expr}, a.same b → a.unlowered = b.unlowered
  | literal .., b, h | name _, b, h | index .., b, h | range .., b, h | stepped .., b, h
  | colon _, b, h => by
    cases b with
    | _ => first | rfl | cases h
  | call f xs l, b, h => by
    cases b with
    | call g ys k =>
      simp only [same, Bool.and_eq_true] at h
      exact unloweredOfAll_of_same h.2
    | _ => cases h
  | array xs s l, b, h => by
    cases b with
    | array ys t k =>
      simp only [same, Bool.and_eq_true] at h
      exact unloweredOfAll_of_same h.1
    | _ => cases h

theorem unloweredOfAll_of_same : ∀ {as bs : List Expr}, sameAll as bs →
    unloweredOfAll as = unloweredOfAll bs
  | [], [], _ => rfl
  | [], _ :: _, h | _ :: _, [], h => by cases h
  | a :: as, b :: bs, h => by
    simp only [sameAll, Bool.and_eq_true] at h
    rw [unloweredOfAll, unloweredOfAll, unlowered_of_same h.1, unloweredOfAll_of_same h.2]

end

/-! ## Validation -/

mutual

/-- Validation leaves these forms where they are, and lets no range with a step pass. -/
theorem unlowered_of_validate : ∀ {e e' : Expr}, e.validate = .ok e' →
    e'.unlowered = e.unlowered ∧ .stepped ∉ e.unlowered
  | literal .., _, h | name _, _, h | colon _, _, h => by
    cases h
    exact ⟨rfl, by simp [unlowered]⟩
  | index base [] l, _, h => by
    cases h
    exact ⟨rfl, by simp [unlowered]⟩
  | index base (i :: is) l, _, h => by
    obtain ⟨_, -, h⟩ := bind_eq_ok.1 h
    obtain ⟨_, -, h⟩ := bind_eq_ok.1 h
    cases h
    exact ⟨rfl, by simp [unlowered]⟩
  | call f args l, _, h => by
    obtain ⟨args', hargs, rfl⟩ := validate_call_eq_ok h
    exact unloweredOfAll_of_validateAll hargs
  | range a b l, _, h => by
    obtain ⟨_, -, h⟩ := bind_eq_ok.1 h
    obtain ⟨_, -, h⟩ := bind_eq_ok.1 h
    cases h
    exact ⟨rfl, by simp [unlowered]⟩
  | stepped .., _, h => by cases h
  | array xs shape l, _, h => by
    obtain ⟨xs', hxs, h⟩ := bind_eq_ok.1 h
    cases h
    exact unloweredOfAll_of_validateAll hxs

theorem unloweredOfAll_of_validateAll : ∀ {es es' : List Expr}, validateAll es = .ok es' →
    unloweredOfAll es' = unloweredOfAll es ∧ .stepped ∉ unloweredOfAll es
  | [], _, h => by
    cases h
    exact ⟨rfl, nofun⟩
  | e :: es, _, h => by
    obtain ⟨e', he, h⟩ := bind_eq_ok.1 h
    obtain ⟨es', hes, h⟩ := bind_eq_ok.1 h
    cases h
    obtain ⟨heq, hnot⟩ := unlowered_of_validate he
    obtain ⟨heqs, hnots⟩ := unloweredOfAll_of_validateAll hes
    rw [unloweredOfAll, unloweredOfAll, heq, heqs]
    exact ⟨rfl, by simp [hnot, hnots]⟩

end

/-- A left-hand side is a name or an array reference. -/
theorem unlowered_of_validateTarget {e e' : Expr} {l : Option Location}
    (h : e.validateTarget l = .ok e') : ∀ k ∈ e'.unlowered, k = .reference := by
  cases e with
  | name x =>
    cases h
    exact nofun
  | index base is k =>
    cases is with
    | nil => cases h
    | cons i is =>
      rw [(unlowered_of_validate h).1]
      simp [unlowered]
  | call f args k => rcases args with _ | ⟨_, _ | ⟨_, _⟩⟩ <;> cases h
  | _ => cases h

theorem unlowered_of_validateLinkedTarget {e e' : Expr} {l : Option Location}
    (h : e.validateLinkedTarget l = .ok e') : ∀ k ∈ e'.unlowered, k = .reference := by
  unfold validateLinkedTarget at h
  split at h
  · obtain ⟨lhs, hlhs, h⟩ := bind_eq_ok.1 h
    cases h
    simpa [unlowered, unloweredOfAll] using unlowered_of_validateTarget hlhs
  · exact unlowered_of_validateTarget h

/-! ## Special functions -/

section Special

variable {samples : Samples}

theorem unlowered_of_expandCall {f : String} {args : List Expr} {l : Option Location} {e' : Expr}
    {k : Unlowered} (h : expandCall samples f args l = .ok e') (hk : k ∈ e'.unlowered) :
    k ∈ unloweredOfAll args ∨ ∃ x ∈ samples, k ∈ x.2.unlowered := by
  unfold expandCall at h
  split at h
  · cases h
    exact .inl hk
  · next g x value _ =>
    obtain ⟨d, hd, h⟩ := bind_eq_ok.1 h
    cases h
    obtain ⟨lhs, hmem⟩ := mem_of_distribution hd
    have hsides : k ∈ d.unlowered ∨ k ∈ value.unlowered := by
      cases g <;> simpa [SpecialFunction.expansion, unlowered, unloweredOfAll, ofNumber] using hk
    refine hsides.elim (fun hk => .inr ⟨_, hmem, hk⟩) fun hk => .inl ?_
    exact mem_unloweredOfAll.2 ⟨value, by simp, hk⟩
  · cases h

mutual

/-- What the expansion of special functions leaves was there, or on the right-hand side of a
sample. -/
theorem unlowered_of_expandSpecial {k : Unlowered} : ∀ {e e' : Expr},
    e.expandSpecial samples = .ok e' → k ∈ e'.unlowered →
    k ∈ e.unlowered ∨ ∃ x ∈ samples, k ∈ x.2.unlowered
  | literal .., _, h, hk | name _, _, h, hk | colon _, _, h, hk => by
    cases h
    exact .inl hk
  | index base is l, _, h, hk => by
    obtain ⟨_, -, h⟩ := bind_eq_ok.1 h
    obtain ⟨_, -, h⟩ := bind_eq_ok.1 h
    cases h
    exact .inl hk
  | call f args l, _, h, hk => by
    obtain ⟨args', hargs, h⟩ := bind_eq_ok.1 h
    rcases unlowered_of_expandCall h hk with hk | hk
    · exact unloweredOfAll_of_expandSpecialAll hargs hk
    · exact .inr hk
  | range a b l, _, h, hk => by
    obtain ⟨_, -, h⟩ := bind_eq_ok.1 h
    obtain ⟨_, -, h⟩ := bind_eq_ok.1 h
    cases h
    exact .inl hk
  | stepped a b s l, _, h, hk => by
    obtain ⟨_, -, h⟩ := bind_eq_ok.1 h
    obtain ⟨_, -, h⟩ := bind_eq_ok.1 h
    obtain ⟨_, -, h⟩ := bind_eq_ok.1 h
    cases h
    exact .inl hk
  | array xs shape l, _, h, hk => by
    obtain ⟨xs', hxs, h⟩ := bind_eq_ok.1 h
    cases h
    exact unloweredOfAll_of_expandSpecialAll hxs hk

theorem unloweredOfAll_of_expandSpecialAll {k : Unlowered} : ∀ {es es' : List Expr},
    expandSpecialAll samples es = .ok es' → k ∈ unloweredOfAll es' →
    k ∈ unloweredOfAll es ∨ ∃ x ∈ samples, k ∈ x.2.unlowered
  | [], _, h, hk => by
    cases h
    exact .inl hk
  | e :: es, _, h, hk => by
    obtain ⟨e', he, h⟩ := bind_eq_ok.1 h
    obtain ⟨es', hes, h⟩ := bind_eq_ok.1 h
    cases h
    simp only [unloweredOfAll, List.mem_append] at hk ⊢
    rcases hk with hk | hk
    · exact (unlowered_of_expandSpecial he hk).imp_left .inl
    · exact (unloweredOfAll_of_expandSpecialAll hes hk).imp_left .inr

end

end Special

/-! ## Lowering -/

section Lowering

open Definitions

theorem unlowered_toExpr (ref : Reference) (l : Option Location) :
    (ref.toExpr l).unlowered = [] := by
  cases ref with
  | one c => rfl
  | block shape cells =>
    refine List.eq_nil_iff_forall_not_mem.2 fun k hk => ?_
    obtain ⟨e, he, hk⟩ := mem_unloweredOfAll.1 hk
    obtain ⟨c, -, rfl⟩ := List.mem_map.1 he
    cases hk

mutual

/-- Lowering removes the references and leaves everything else outside of index positions. -/
theorem unlowered_of_lower {d : Definitions} : ∀ {e e' : Expr} {r r' : Registry},
    d.lower e r = (.ok e', r') → e'.unlowered = e.unlowered.filter (· ≠ .reference)
  | literal .., _, _, _, h | name _, _, _, _, h | colon _, _, _, _, h => by
    rw [lower] at h
    cases h
    rfl
  | index base is l, _, _, _, h => by
    rw [lower] at h
    obtain ⟨_, _, -, h⟩ := run_bind_eq_ok.1 h
    obtain ⟨_, _, -, h⟩ := run_bind_eq_ok.1 h
    obtain ⟨ref, _, -, h⟩ := run_bind_eq_ok.1 h
    obtain ⟨rfl, -⟩ := run_pure_eq_ok.1 h
    exact unlowered_toExpr ref l
  | call f args l, _, _, _, h => by
    rw [lower] at h
    obtain ⟨args', _, hargs, h⟩ := run_bind_eq_ok.1 h
    obtain ⟨rfl, -⟩ := run_pure_eq_ok.1 h
    exact unloweredOfAll_of_lowerAll hargs
  | range a b l, _, _, _, h => by
    rw [lower] at h
    obtain ⟨_, _, -, h⟩ := run_bind_eq_ok.1 h
    obtain ⟨_, _, -, h⟩ := run_bind_eq_ok.1 h
    obtain ⟨rfl, -⟩ := run_pure_eq_ok.1 h
    rfl
  | stepped a b s l, _, _, _, h => by
    rw [lower] at h
    obtain ⟨_, _, -, h⟩ := run_bind_eq_ok.1 h
    obtain ⟨_, _, -, h⟩ := run_bind_eq_ok.1 h
    obtain ⟨_, _, -, h⟩ := run_bind_eq_ok.1 h
    obtain ⟨rfl, -⟩ := run_pure_eq_ok.1 h
    rfl
  | array xs shape l, _, _, _, h => by
    rw [lower] at h
    obtain ⟨xs', _, hxs, h⟩ := run_bind_eq_ok.1 h
    obtain ⟨rfl, -⟩ := run_pure_eq_ok.1 h
    exact unloweredOfAll_of_lowerAll hxs

theorem unloweredOfAll_of_lowerAll {d : Definitions} : ∀ {es es' : List Expr} {r r' : Registry},
    d.lowerAll es r = (.ok es', r') →
      unloweredOfAll es' = (unloweredOfAll es).filter (· ≠ .reference)
  | [], _, _, _, h => by
    rw [lowerAll] at h
    cases h
    rfl
  | e :: es, _, _, _, h => by
    rw [lowerAll] at h
    obtain ⟨e', _, he, h⟩ := run_bind_eq_ok.1 h
    obtain ⟨es', _, hes, h⟩ := run_bind_eq_ok.1 h
    obtain ⟨rfl, -⟩ := run_pure_eq_ok.1 h
    rw [unloweredOfAll, unloweredOfAll, List.filter_append, unlowered_of_lower he,
      unloweredOfAll_of_lowerAll hes]

end

end Lowering

end Expr

/-! ## Compilation of expressions -/

/-- The form that an internal fault is about. -/
def InternalProblem.kind : InternalProblem → Unlowered
  | reference _ => .reference
  | range (.stepped ..) => .stepped
  | range _ => .range
  | colon => .colon

namespace Expr

mutual

/-- What keeps an expression from being compiled, other than an unknown function, is in it. -/
theorem kind_of_checkEvaluable {f : InternalProblem} : ∀ {e : Expr},
    e.checkEvaluable = .error (.internal f) → f.kind ∈ e.unlowered
  | literal .., h | name _, h => by cases h
  | index .., h | range .., h | stepped .., h | colon _, h => by
    cases h
    exact List.mem_singleton_self _
  | call g args l, h => by
    rw [checkEvaluable] at h
    split at h
    · next hargs =>
      cases h
      exact kind_of_checkAllEvaluable hargs
    · split at h <;> cases h
  | array xs _ _, h => kind_of_checkAllEvaluable h

theorem kind_of_checkAllEvaluable {f : InternalProblem} : ∀ {es : List Expr},
    checkAllEvaluable es = .error (.internal f) → f.kind ∈ unloweredOfAll es
  | [], h => by cases h
  | e :: es, h => by
    rw [checkAllEvaluable] at h
    rw [unloweredOfAll, List.mem_append]
    split at h
    · next he =>
      cases h
      exact .inl (kind_of_checkEvaluable he)
    · exact .inr (kind_of_checkAllEvaluable h)

end

mutual

/-- An expression that can be compiled holds none of these forms. -/
theorem unlowered_of_checkEvaluable : ∀ {e : Expr}, e.checkEvaluable = .ok () → e.unlowered = []
  | literal .., _ | name _, _ => rfl
  | index .., h | range .., h | stepped .., h | colon _, h => by cases h
  | call g args l, h => by
    rw [checkEvaluable] at h
    split at h
    · cases h
    · next hargs => exact unlowered_of_checkAllEvaluable hargs
  | array xs _ _, h => unlowered_of_checkAllEvaluable h

theorem unlowered_of_checkAllEvaluable : ∀ {es : List Expr}, checkAllEvaluable es = .ok () →
    unloweredOfAll es = []
  | [], _ => rfl
  | e :: es, h => by
    rw [checkAllEvaluable] at h
    split at h
    · cases h
    · next he =>
      rw [unloweredOfAll, unlowered_of_checkEvaluable he, unlowered_of_checkAllEvaluable h]
      rfl

end

end Expr

/-! ## Statements -/

/-- The forms of an expression that no generator is compiled from are of certain kinds. -/
def Expr.Only (S : Unlowered → Prop) (e : Expr) : Prop := ∀ k ∈ e.unlowered, S k

theorem Expr.stable_only (S : Unlowered → Prop) : Stable (Expr.Only S) := by
  intro m e hm h
  rw [Only, unlowered_substitute hm]
  exact h

namespace Stmt

mutual

/-- The forms on the right-hand sides of a statement that no generator is compiled from. -/
def unlowered : Stmt → List Unlowered
  | assign _ rhs _ | sample _ rhs _ => rhs.unlowered
  | loop _ _ _ body _ | branch _ body _ => unloweredOfAll body

/-- The forms on the right-hand sides of some statements. -/
def unloweredOfAll : List Stmt → List Unlowered
  | [] => []
  | s :: rest => unlowered s ++ unloweredOfAll rest

end

theorem mem_unloweredOfAll {k : Unlowered} {ss : List Stmt} :
    k ∈ unloweredOfAll ss ↔ ∃ st ∈ ss, k ∈ st.unlowered := by
  induction ss with
  | nil => simp [unloweredOfAll]
  | cons st ss ih =>
    simp only [unloweredOfAll, List.mem_append, ih, List.mem_cons, exists_eq_or_imp]

/-- The forms on both sides of the definitions are of certain kinds. -/
abbrev OnlyAll (S : Unlowered → Prop) : List Stmt → Prop := EveryOfAll (fun _ => True) (Expr.Only S)

variable {S : Unlowered → Prop}

mutual

theorem only_of_validate (hS : S .reference) : ∀ {s s' : Stmt}, s.validate = .ok s' →
    (∀ k ∈ s.unlowered, k ≠ .stepped → S k) → s'.Every (fun _ => True) (Expr.Only S)
  | assign lhs rhs l, _, h, hs => by
    obtain ⟨lhs', hlhs, h⟩ := bind_eq_ok.1 h
    obtain ⟨rhs', hrhs, h⟩ := bind_eq_ok.1 h
    cases h
    obtain ⟨heq, hnot⟩ := Expr.unlowered_of_validate hrhs
    refine ⟨fun k hk => ?_, fun k hk => ?_⟩
    · rw [Expr.unlowered_of_validateLinkedTarget hlhs k hk]
      exact hS
    · rw [heq] at hk
      exact hs k hk fun hstepped => hnot (hstepped ▸ hk)
  | sample lhs rhs l, _, h, hs => by
    obtain ⟨lhs', hlhs, h⟩ := bind_eq_ok.1 h
    obtain ⟨_, -, h⟩ := bind_eq_ok.1 h
    obtain ⟨rhs', hrhs, h⟩ := bind_eq_ok.1 h
    cases h
    obtain ⟨heq, hnot⟩ := Expr.unlowered_of_validate hrhs
    refine ⟨fun k hk => ?_, fun k hk => ?_⟩
    · rw [Expr.unlowered_of_validateTarget hlhs k hk]
      exact hS
    · rw [heq] at hk
      exact hs k hk fun hstepped => hnot (hstepped ▸ hk)
  | loop i lower upper body l, _, h, hs => by
    rw [validate] at h
    split at h
    · cases h
    · obtain ⟨_, -, h⟩ := bind_eq_ok.1 h
      obtain ⟨_, -, h⟩ := bind_eq_ok.1 h
      obtain ⟨body', hbody, h⟩ := bind_eq_ok.1 h
      cases h
      exact ⟨trivial, trivial, onlyAll_of_validateAll hS hbody hs⟩
  | branch condition body l, _, h, hs => by
    obtain ⟨_, -, h⟩ := bind_eq_ok.1 h
    obtain ⟨body', hbody, h⟩ := bind_eq_ok.1 h
    cases h
    exact ⟨trivial, onlyAll_of_validateAll hS hbody hs⟩

theorem onlyAll_of_validateAll (hS : S .reference) : ∀ {ss ss' : List Stmt},
    validateAll ss = .ok ss' → (∀ k ∈ unloweredOfAll ss, k ≠ .stepped → S k) → OnlyAll S ss'
  | [], _, h, _ => by cases h; trivial
  | s :: ss, _, h, hs => by
    obtain ⟨s', hs', h⟩ := bind_eq_ok.1 h
    obtain ⟨ss', hss', h⟩ := bind_eq_ok.1 h
    cases h
    exact ⟨only_of_validate hS hs' fun k hk => hs k (List.mem_append_left _ hk),
      onlyAll_of_validateAll hS hss' fun k hk => hs k (List.mem_append_right _ hk)⟩

end

theorem only_call {f : String} {args : List Expr} {l : Option Location} :
    (Expr.call f args l).Only S ↔ ∀ e ∈ args, e.Only S := by
  simp only [Expr.Only, Expr.unlowered, Expr.mem_unloweredOfAll]
  exact ⟨fun h e he k hk => h k ⟨e, he, hk⟩, fun h k ⟨e, he, hk⟩ => h e he k hk⟩

theorem only_of_unlinkAssign {f : String} {args : List Expr} {rhs : Expr} {l : Option Location}
    {s : Stmt} (h : unlinkAssign f args rhs l = .ok s) (hargs : ∀ e ∈ args, e.Only S)
    (hrhs : rhs.Only S) : s.Every (fun _ => True) (Expr.Only S) := by
  unfold unlinkAssign at h
  split at h
  · cases h
    exact ⟨hargs _ (List.mem_singleton_self _), only_call.2 (List.forall_mem_singleton.2 hrhs)⟩
  · cases h

mutual

theorem only_of_unlink : ∀ {s s' : Stmt}, s.unlink = .ok s' →
    s.Every (fun _ => True) (Expr.Only S) → s'.Every (fun _ => True) (Expr.Only S)
  | assign lhs rhs l, s', h, hs => by
    cases lhs with
    | call f args k => exact only_of_unlinkAssign h (only_call.1 hs.1) hs.2
    | _ => cases h; exact hs
  | sample lhs rhs l, s', h, hs => by
    cases lhs with
    | call f args k => cases h
    | _ => cases h; exact hs
  | loop i lower upper body l, _, h, hs => by
    obtain ⟨body', hbody, h⟩ := bind_eq_ok.1 h
    cases h
    exact ⟨trivial, trivial, onlyAll_of_unlinkAll hbody hs.2.2⟩
  | branch condition body l, _, h, hs => by
    obtain ⟨body', hbody, h⟩ := bind_eq_ok.1 h
    cases h
    exact ⟨trivial, onlyAll_of_unlinkAll hbody hs.2⟩

theorem onlyAll_of_unlinkAll : ∀ {ss ss' : List Stmt}, unlinkAll ss = .ok ss' →
    OnlyAll S ss → OnlyAll S ss'
  | [], _, h, _ => by cases h; trivial
  | s :: ss, _, h, hs => by
    obtain ⟨s', hs', h⟩ := bind_eq_ok.1 h
    obtain ⟨ss', hss', h⟩ := bind_eq_ok.1 h
    cases h
    exact ⟨only_of_unlink hs' hs.1, onlyAll_of_unlinkAll hss' hs.2⟩

end

mutual

theorem only_samples : ∀ {s : Stmt}, s.Every (fun _ => True) (Expr.Only S) →
    ∀ x ∈ s.samples, x.2.Only S
  | assign .., _ => nofun
  | sample .., hs => List.forall_mem_singleton.2 hs.2
  | loop _ _ _ body _, hs => only_samplesAll (show OnlyAll S body from hs.2.2)
  | branch _ body _, hs => only_samplesAll (show OnlyAll S body from hs.2)

theorem only_samplesAll : ∀ {ss : List Stmt}, OnlyAll S ss → ∀ x ∈ samplesAll ss, x.2.Only S
  | [], _ => nofun
  | _ :: _, hs => List.forall_mem_append.2 ⟨only_samples hs.1, only_samplesAll hs.2⟩

end

section Special

variable {samples : Samples}

theorem Expr.only_of_expandSpecial (hsamples : ∀ x ∈ samples, x.2.Only S) {e e' : Expr}
    (h : e.expandSpecial samples = .ok e') (he : e.Only S) : e'.Only S := by
  intro k hk
  rcases Expr.unlowered_of_expandSpecial h hk with hk | ⟨x, hx, hk⟩
  · exact he k hk
  · exact hsamples x hx k hk

mutual

theorem only_of_expandSpecial (hsamples : ∀ x ∈ samples, x.2.Only S) : ∀ {s s' : Stmt},
    s.expandSpecial samples = .ok s' → s.Every (fun _ => True) (Expr.Only S) →
    s'.Every (fun _ => True) (Expr.Only S)
  | assign lhs rhs l, _, h, hs | sample lhs rhs l, _, h, hs => by
    obtain ⟨lhs', hlhs, h⟩ := bind_eq_ok.1 h
    obtain ⟨rhs', hrhs, h⟩ := bind_eq_ok.1 h
    cases h
    exact ⟨Expr.only_of_expandSpecial hsamples hlhs hs.1,
      Expr.only_of_expandSpecial hsamples hrhs hs.2⟩
  | loop i lower upper body l, _, h, hs => by
    obtain ⟨_, -, h⟩ := bind_eq_ok.1 h
    obtain ⟨_, -, h⟩ := bind_eq_ok.1 h
    obtain ⟨body', hbody, h⟩ := bind_eq_ok.1 h
    cases h
    exact ⟨trivial, trivial, onlyAll_of_expandSpecialAll hsamples hbody hs.2.2⟩
  | branch condition body l, _, h, hs => by
    obtain ⟨_, -, h⟩ := bind_eq_ok.1 h
    obtain ⟨body', hbody, h⟩ := bind_eq_ok.1 h
    cases h
    exact ⟨trivial, onlyAll_of_expandSpecialAll hsamples hbody hs.2⟩

theorem onlyAll_of_expandSpecialAll (hsamples : ∀ x ∈ samples, x.2.Only S) :
    ∀ {ss ss' : List Stmt}, expandSpecialAll samples ss = .ok ss' → OnlyAll S ss → OnlyAll S ss'
  | [], _, h, _ => by cases h; trivial
  | s :: ss, _, h, hs => by
    obtain ⟨s', hs', h⟩ := bind_eq_ok.1 h
    obtain ⟨ss', hss', h⟩ := bind_eq_ok.1 h
    cases h
    exact ⟨only_of_expandSpecial hsamples hs' hs.1,
      onlyAll_of_expandSpecialAll hsamples hss' hs.2⟩

end

end Special

end Stmt

/-! ## Programs -/

namespace Program

/-- The forms on the right-hand sides of a program that no generator is compiled from. -/
def unlowered (p : Program) : List Unlowered := Stmt.unloweredOfAll p.statements

/-- A program has a range without a step, or a whole axis, on a right-hand side outside of index
positions. -/
def Misplaces (p : Program) (k : Unlowered) : Prop := k ∈ p.unlowered ∧ (k = .range ∨ k = .colon)

/-- The passes before resolution leave on both sides only references and what was there. -/
theorem only_of_normal {p valid unlinked expanded : Program} (hvalid : p.validate = .ok valid)
    (hunlink : valid.unlink = .ok unlinked) (hexpand : unlinked.expandSpecial = .ok expanded) :
    Stmt.OnlyAll (fun k => k = .reference ∨ p.Misplaces k) expanded.statements := by
  obtain ⟨ss, hss, rfl⟩ := map_eq_ok.1 hvalid
  obtain ⟨ss', hss', rfl⟩ := map_eq_ok.1 hunlink
  obtain ⟨ss'', hss'', rfl⟩ := map_eq_ok.1 hexpand
  have hkinds : ∀ k ∈ p.unlowered, k ≠ .stepped → k = .reference ∨ p.Misplaces k := by
    intro k hk hstepped
    cases k with
    | reference => exact .inl rfl
    | stepped => exact absurd rfl hstepped
    | range => exact .inr ⟨hk, .inl rfl⟩
    | colon => exact .inr ⟨hk, .inr rfl⟩
  have hlinked := Stmt.onlyAll_of_unlinkAll hss' (Stmt.onlyAll_of_validateAll (.inl rfl) hss hkinds)
  exact Stmt.onlyAll_of_expandSpecialAll (Stmt.only_samplesAll hlinked) hss'' hlinked

end Program

end PlateModel
