import PlateModel.Normal.Links
import PlateModel.Normal.Validate
import PlateModel.Proofs.Computation
import PlateModel.Proofs.Model.Occurrences
import PlateModel.Proofs.Normal.SingleCells

/-!
# What normalized statements are made of

Each of the passes before resolution rewrites the statements of a program one by one, and leaves the
loops and the conditionals around them. So a statement of the normalized program stands under the
same loops as the statement that it is made of.

* `RewritesEach`: a pass of this kind; `validate_rewritesEach`, `unlink_rewritesEach`,
  `expandSpecial_rewritesEach`: the three passes.
* `Program.Normalizes`: what the passes make of a statement.
* `Program.normalizes_of_occurs`: where the statements of a normalized program come from.
* `Stmt.definiens`: the right-hand side of a definition, with the link function moved there.
-/

namespace PlateModel

namespace Stmt

/-- A pass rewrites every statement of a list, and it leaves loops and conditionals. -/
structure RewritesEach (f : Stmt → Except Fault Stmt)
    (g : List Stmt → Except Fault (List Stmt)) : Prop where
  nil : g [] = .ok []
  cons : ∀ st rest, g (st :: rest) = f st >>= fun a => g rest >>= fun as => pure (a :: as)
  flat : ∀ {st st'}, st.isFlat → f st = .ok st' → st'.isFlat
  loop : ∀ {i lower upper body l st'}, f (.loop i lower upper body l) = .ok st' →
    ∃ lower' upper' body', st' = .loop i lower' upper' body' l ∧ g body = .ok body'
  branch : ∀ {guard body l st'}, f (.branch guard body l) = .ok st' →
    ∃ guard' body', st' = .branch guard' body' l ∧ g body = .ok body'

namespace RewritesEach

variable {f : Stmt → Except Fault Stmt} {g : List Stmt → Except Fault (List Stmt)}

theorem cons_eq_ok (h : RewritesEach f g) {st : Stmt} {ss ss' : List Stmt}
    (hss : g (st :: ss) = .ok ss') :
    ∃ st' rest, f st = .ok st' ∧ g ss = .ok rest ∧ ss' = st' :: rest := by
  rw [h.cons] at hss
  obtain ⟨st', hst, hss⟩ := bind_eq_ok.1 hss
  obtain ⟨rest, hrest, hss⟩ := bind_eq_ok.1 hss
  cases hss
  exact ⟨st', rest, hst, hrest, rfl⟩

/-- Every statement is made of one that was there. -/
theorem exists_of_mem (h : RewritesEach f g) {st' : Stmt} : ∀ {ss ss' : List Stmt},
    g ss = .ok ss' → st' ∈ ss' → ∃ st ∈ ss, f st = .ok st'
  | [], _, hss, hst => by
    rw [h.nil] at hss
    cases hss
    cases hst
  | st :: ss, _, hss, hst => by
    obtain ⟨a, rest, ha, hrest, rfl⟩ := h.cons_eq_ok hss
    rcases List.mem_cons.1 hst with rfl | hst
    · exact ⟨st, List.mem_cons_self .., ha⟩
    · obtain ⟨st₀, hst₀, heq⟩ := h.exists_of_mem hrest hst
      exact ⟨st₀, List.mem_cons_of_mem st hst₀, heq⟩

/-- Every statement has been rewritten. -/
theorem mem_of_mem (h : RewritesEach f g) {st : Stmt} : ∀ {ss ss' : List Stmt},
    g ss = .ok ss' → st ∈ ss → ∃ st' ∈ ss', f st = .ok st'
  | st₀ :: ss, _, hss, hst => by
    obtain ⟨a, rest, ha, hrest, rfl⟩ := h.cons_eq_ok hss
    rcases List.mem_cons.1 hst with rfl | hst
    · exact ⟨a, List.mem_cons_self .., ha⟩
    · obtain ⟨st', hst', heq⟩ := h.mem_of_mem hrest hst
      exact ⟨st', List.mem_cons_of_mem a hst', heq⟩

/-- A statement stands under the same loops as the one that it is made of. -/
theorem occurs (h : RewritesEach f g) {ss ss' : List Stmt} {env : Mapping} {st' : Stmt}
    (hoccurs : Occurs ss' env st') (hss : g ss = .ok ss') :
    ∃ st, Occurs ss env st ∧ f st = .ok st' := by
  induction hoccurs generalizing ss with
  | here hst =>
    obtain ⟨st, hmem, hst⟩ := h.exists_of_mem hss hst
    exact ⟨st, .here hmem, hst⟩
  | loop hloop k _ ih =>
    obtain ⟨st₀, hmem, hst₀⟩ := h.exists_of_mem hss hloop
    cases st₀ with
    | loop i lower upper body l =>
      obtain ⟨_, _, _, heq, hbody⟩ := h.loop hst₀
      cases heq
      obtain ⟨st, hst, heq⟩ := ih hbody
      exact ⟨st, .loop hmem k hst, heq⟩
    | branch =>
      obtain ⟨_, _, heq, -⟩ := h.branch hst₀
      cases heq
    | _ => cases h.flat rfl hst₀
  | branch hbranch _ ih =>
    obtain ⟨st₀, hmem, hst₀⟩ := h.exists_of_mem hss hbranch
    cases st₀ with
    | branch guard body l =>
      obtain ⟨_, _, heq, hbody⟩ := h.branch hst₀
      cases heq
      obtain ⟨st, hst, heq⟩ := ih hbody
      exact ⟨st, .branch hmem hst, heq⟩
    | loop =>
      obtain ⟨_, _, _, heq, -⟩ := h.loop hst₀
      cases heq
    | _ => cases h.flat rfl hst₀

end RewritesEach

/-! ## The passes -/

theorem validate_assign_eq_ok {lhs rhs : Expr} {l : Option Location} {st : Stmt}
    (h : (assign lhs rhs l).validate = .ok st) : ∃ lhs' rhs',
      lhs.validateLinkedTarget l = .ok lhs' ∧ rhs.validate = .ok rhs' ∧
        st = assign lhs' rhs' l := by
  obtain ⟨lhs', hlhs, h⟩ := bind_eq_ok.1 h
  obtain ⟨rhs', hrhs, h⟩ := bind_eq_ok.1 h
  cases h
  exact ⟨lhs', rhs', hlhs, hrhs, rfl⟩

theorem validate_sample_eq_ok {lhs rhs : Expr} {l : Option Location} {st : Stmt}
    (h : (sample lhs rhs l).validate = .ok st) : ∃ lhs' rhs',
      lhs.validateTarget l = .ok lhs' ∧ rhs.validate = .ok rhs' ∧ st = sample lhs' rhs' l := by
  obtain ⟨lhs', hlhs, h⟩ := bind_eq_ok.1 h
  obtain ⟨_, -, h⟩ := bind_eq_ok.1 h
  obtain ⟨rhs', hrhs, h⟩ := bind_eq_ok.1 h
  cases h
  exact ⟨lhs', rhs', hlhs, hrhs, rfl⟩

theorem validate_loop_eq_ok {i : String} {lower upper : Expr} {body : List Stmt}
    {l : Option Location} {st : Stmt} (h : (loop i lower upper body l).validate = .ok st) :
    Text.isIdentifier i ∧ ∃ lower' upper' body',
      st = loop i lower' upper' body' l ∧ validateAll body = .ok body' := by
  rw [validate] at h
  split at h
  · cases h
  · next hi =>
    obtain ⟨lower', -, h⟩ := bind_eq_ok.1 h
    obtain ⟨upper', -, h⟩ := bind_eq_ok.1 h
    obtain ⟨body', hbody, h⟩ := bind_eq_ok.1 h
    cases h
    exact ⟨by simpa using hi, lower', upper', body', rfl, hbody⟩

theorem validate_rewritesEach : RewritesEach validate validateAll where
  nil := rfl
  cons _ _ := rfl
  flat {st _} hflat h := by
    cases st with
    | assign => obtain ⟨_, _, -, -, rfl⟩ := validate_assign_eq_ok h; rfl
    | sample => obtain ⟨_, _, -, -, rfl⟩ := validate_sample_eq_ok h; rfl
    | _ => cases hflat
  loop h := (validate_loop_eq_ok h).2
  branch h := by
    obtain ⟨guard', -, h⟩ := bind_eq_ok.1 h
    obtain ⟨body', hbody, h⟩ := bind_eq_ok.1 h
    cases h
    exact ⟨guard', body', rfl, hbody⟩

theorem unlinkAssign_eq_ok {f : String} {args : List Expr} {rhs : Expr} {l : Option Location}
    {st : Stmt} (h : unlinkAssign f args rhs l = .ok st) : ∃ inverse lhs,
      links.lookup f = some inverse ∧ args = [lhs] ∧
        st = assign lhs (.call inverse [rhs] rhs.location) l := by
  unfold unlinkAssign at h
  split at h
  · next inverse lhs hlookup =>
    cases h
    exact ⟨inverse, lhs, hlookup, rfl, rfl⟩
  · cases h

theorem unlink_rewritesEach : RewritesEach unlink unlinkAll where
  nil := rfl
  cons _ _ := rfl
  flat {st _} hflat h := by
    cases st with
    | assign lhs rhs l =>
      cases lhs with
      | call f args k => obtain ⟨_, _, -, -, rfl⟩ := unlinkAssign_eq_ok h; rfl
      | _ => cases h; rfl
    | sample lhs rhs l =>
      cases lhs with
      | call f args k => cases h
      | _ => cases h; rfl
    | _ => cases hflat
  loop h := by
    obtain ⟨body', hbody, h⟩ := bind_eq_ok.1 h
    cases h
    exact ⟨_, _, body', rfl, hbody⟩
  branch h := by
    obtain ⟨body', hbody, h⟩ := bind_eq_ok.1 h
    cases h
    exact ⟨_, body', rfl, hbody⟩

theorem expandSpecial_assign_eq_ok {samples : Samples} {lhs rhs : Expr} {l : Option Location}
    {st : Stmt} (h : (assign lhs rhs l).expandSpecial samples = .ok st) : ∃ lhs' rhs',
      lhs.expandSpecial samples = .ok lhs' ∧ rhs.expandSpecial samples = .ok rhs' ∧
        st = assign lhs' rhs' l := by
  obtain ⟨lhs', hlhs, h⟩ := bind_eq_ok.1 h
  obtain ⟨rhs', hrhs, h⟩ := bind_eq_ok.1 h
  cases h
  exact ⟨lhs', rhs', hlhs, hrhs, rfl⟩

theorem expandSpecial_sample_eq_ok {samples : Samples} {lhs rhs : Expr} {l : Option Location}
    {st : Stmt} (h : (sample lhs rhs l).expandSpecial samples = .ok st) : ∃ lhs' rhs',
      lhs.expandSpecial samples = .ok lhs' ∧ rhs.expandSpecial samples = .ok rhs' ∧
        st = sample lhs' rhs' l := by
  obtain ⟨lhs', hlhs, h⟩ := bind_eq_ok.1 h
  obtain ⟨rhs', hrhs, h⟩ := bind_eq_ok.1 h
  cases h
  exact ⟨lhs', rhs', hlhs, hrhs, rfl⟩

theorem expandSpecial_rewritesEach (samples : Samples) :
    RewritesEach (expandSpecial samples) (expandSpecialAll samples) where
  nil := rfl
  cons _ _ := rfl
  flat {st _} hflat h := by
    cases st with
    | assign => obtain ⟨_, _, -, -, rfl⟩ := expandSpecial_assign_eq_ok h; rfl
    | sample => obtain ⟨_, _, -, -, rfl⟩ := expandSpecial_sample_eq_ok h; rfl
    | _ => cases hflat
  loop h := by
    obtain ⟨lower', -, h⟩ := bind_eq_ok.1 h
    obtain ⟨upper', -, h⟩ := bind_eq_ok.1 h
    obtain ⟨body', hbody, h⟩ := bind_eq_ok.1 h
    cases h
    exact ⟨lower', upper', body', rfl, hbody⟩
  branch h := by
    obtain ⟨guard', -, h⟩ := bind_eq_ok.1 h
    obtain ⟨body', hbody, h⟩ := bind_eq_ok.1 h
    cases h
    exact ⟨guard', body', rfl, hbody⟩

/-- The variables of the loops around a statement of a valid program are identifiers. -/
theorem Occurs.isIdentifier {ss ss' : List Stmt} {env : Mapping} {st : Stmt}
    (h : Occurs ss env st) (hss : validateAll ss = .ok ss') {x : String} {e : Expr}
    (hx : env.lookup x = some e) : Text.isIdentifier x := by
  induction h generalizing ss' with
  | here => cases hx
  | loop hloop k _ ih =>
    obtain ⟨_, -, hvalid⟩ := validate_rewritesEach.mem_of_mem hss hloop
    obtain ⟨hi, _, _, _, -, hbody⟩ := validate_loop_eq_ok hvalid
    rw [Mapping.lookup_append] at hx
    rcases Option.or_eq_some_iff.1 hx with hx | ⟨-, hx⟩
    · exact ih hbody hx
    · rw [List.lookup_cons] at hx
      split at hx
      · next heq => rwa [beq_iff_eq.1 heq]
      · cases hx
  | branch hbranch _ ih =>
    obtain ⟨_, -, hvalid⟩ := validate_rewritesEach.mem_of_mem hss hbranch
    obtain ⟨_, _, -, hbody⟩ := validate_rewritesEach.branch hvalid
    exact ih hbody hx

/-! ## Definitions -/

/-- The right-hand side of a logical definition, with the link function moved there. -/
def definiens (lhs rhs : Expr) : Expr :=
  match lhs with
  | .call f [_] _ =>
    match links.lookup f with
    | some inverse => .call inverse [rhs] rhs.location
    | none => rhs
  | _ => rhs

/-- The inverses of the link functions are functions. -/
theorem inverse_known : ∀ link ∈ links, Expr.isKnownCall link.2 1 := by
  decide

end Stmt

namespace Expr

/-- Validation leaves the place of an expression. -/
theorem location_of_validate {e e' : Expr} (h : e.validate = .ok e') :
    e'.location = e.location := by
  cases e with
  | literal | name | colon => cases h; rfl
  | index base is l =>
    cases is with
    | nil => cases h; rfl
    | cons i is =>
      obtain ⟨_, -, h⟩ := bind_eq_ok.1 h
      obtain ⟨_, -, h⟩ := bind_eq_ok.1 h
      cases h
      rfl
  | call f args l =>
    obtain ⟨_, -, rfl⟩ := validate_call_eq_ok h
    rfl
  | range a b l =>
    obtain ⟨_, -, h⟩ := bind_eq_ok.1 h
    obtain ⟨_, -, h⟩ := bind_eq_ok.1 h
    cases h
    rfl
  | stepped => cases h
  | array xs shape l =>
    obtain ⟨_, -, h⟩ := bind_eq_ok.1 h
    cases h
    rfl

/-- A left-hand side is a name or a reference, or a link function of one. -/
theorem validateTarget_eq_ok {e e' : Expr} {l : Option Location}
    (h : e.validateTarget l = .ok e') : (∃ x, e = .name x ∧ e' = .name x) ∨
      ∃ base is js k, e = .index base is k ∧ e' = .index base js k := by
  cases e with
  | name x =>
    cases h
    exact .inl ⟨x, rfl, rfl⟩
  | index base is k =>
    cases is with
    | nil => cases h
    | cons i is =>
      obtain ⟨_, -, h⟩ := bind_eq_ok.1 h
      obtain ⟨js, -, h⟩ := bind_eq_ok.1 h
      cases h
      exact .inr ⟨base, i :: is, js, k, rfl, rfl⟩
  | call f args k => rcases args with _ | ⟨_, _ | ⟨_, _⟩⟩ <;> cases h
  | _ => cases h

theorem validateLinkedTarget_eq_ok {e e' : Expr} {l : Option Location}
    (h : e.validateLinkedTarget l = .ok e') :
    (∃ f x x' k, e = .call f [x] k ∧ e' = .call f [x'] k) ∨ (∃ x, e = .name x ∧ e' = .name x) ∨
      ∃ base is js k, e = .index base is k ∧ e' = .index base js k := by
  unfold validateLinkedTarget at h
  split at h
  · next f x k =>
    obtain ⟨x', -, h⟩ := bind_eq_ok.1 h
    cases h
    exact .inl ⟨f, x, x', k, rfl, rfl⟩
  · exact .inr (validateTarget_eq_ok h)

mutual

/-- Validation does nothing to an expression without slices. -/
theorem validate_of_noSlices : ∀ {e e' : Expr}, e.validate = .ok e' → e.NoSlices → e' = e
  | literal .., _, h, _ | name _, _, h, _ | colon _, _, h, _ => by cases h; rfl
  | index base [] l, _, _, hs => absurd rfl (noSlices_index.1 hs).1.1
  | index base (i :: is) l, e', h, hs => by
    obtain ⟨_, -, h⟩ := bind_eq_ok.1 h
    obtain ⟨js, hjs, h⟩ := bind_eq_ok.1 h
    cases h
    rw [validateAll_of_noSlices hjs (noSlices_index.1 hs).2]
  | call f args l, e', h, hs => by
    obtain ⟨args', hargs, rfl⟩ := validate_call_eq_ok h
    rw [validateAll_of_noSlices hargs (forall_referencesOfAll.1 hs)]
  | range a b l, e', h, hs => by
    obtain ⟨a', ha, h⟩ := bind_eq_ok.1 h
    obtain ⟨b', hb, h⟩ := bind_eq_ok.1 h
    cases h
    obtain ⟨hsa, hsb⟩ := List.forall_mem_append.1 hs
    rw [validate_of_noSlices ha hsa, validate_of_noSlices hb hsb]
  | stepped .., _, h, _ => by cases h
  | array xs shape l, e', h, hs => by
    obtain ⟨xs', hxs, h⟩ := bind_eq_ok.1 h
    cases h
    rw [validateAll_of_noSlices hxs (forall_referencesOfAll.1 hs)]

theorem validateAll_of_noSlices : ∀ {es es' : List Expr}, validateAll es = .ok es' →
    (∀ e ∈ es, e.NoSlices) → es' = es
  | [], _, h, _ => by cases h; rfl
  | e :: es, _, h, hs => by
    obtain ⟨e', he, h⟩ := bind_eq_ok.1 h
    obtain ⟨es', hes, h⟩ := bind_eq_ok.1 h
    cases h
    obtain ⟨hse, hses⟩ := List.forall_mem_cons.1 hs
    rw [validate_of_noSlices he hse, validateAll_of_noSlices hes hses]

end

end Expr

/-- What the passes before resolution make of a statement of a program. -/
def Program.Normalizes (p : Program) (st st' : Stmt) : Prop :=
  ∃ valid unlinked, p.validate = .ok valid ∧ valid.unlink = .ok unlinked ∧
    ∃ a b, st.validate = .ok a ∧ a.unlink = .ok b ∧
      b.expandSpecial (Stmt.samplesAll unlinked.statements) = .ok st'

section Normalizes

open Stmt

variable {p valid unlinked expanded : Program} {st st' : Stmt}

/-- A statement of a normalized program is made of one that stands under the same loops. -/
theorem Program.normalizes_of_occurs (hvalid : p.validate = .ok valid)
    (hunlinked : valid.unlink = .ok unlinked) (hexpanded : unlinked.expandSpecial = .ok expanded)
    {env : Mapping} (h : Occurs expanded.statements env st') :
    ∃ st, Occurs p.statements env st ∧ p.Normalizes st st' := by
  obtain ⟨ss, hss, heq⟩ := map_eq_ok.1 hexpanded
  obtain ⟨b, hb, hst'⟩ := (expandSpecial_rewritesEach _).occurs h (by rw [← heq]; exact hss)
  obtain ⟨ss, hss, heq⟩ := map_eq_ok.1 hunlinked
  obtain ⟨a, ha, hab⟩ := unlink_rewritesEach.occurs hb (by rw [← heq]; exact hss)
  obtain ⟨ss, hss, heq⟩ := map_eq_ok.1 hvalid
  obtain ⟨st, hst, hsta⟩ := validate_rewritesEach.occurs ha (by rw [← heq]; exact hss)
  exact ⟨st, hst, valid, unlinked, hvalid, hunlinked, a, b, hsta, hab, hst'⟩

/-- Only logical definitions are made logical ones. -/
theorem Program.Normalizes.assign {lhs' rhs' : Expr} {l' : Option Location}
    (h : p.Normalizes st (.assign lhs' rhs' l')) : ∃ lhs rhs l, st = .assign lhs rhs l := by
  obtain ⟨valid, unlinked, -, -, a, b, ha, hb, hexpanded⟩ := h
  cases st with
  | assign lhs rhs l => exact ⟨lhs, rhs, l, rfl⟩
  | sample lhs rhs l =>
    obtain ⟨lhs, rhs, -, -, rfl⟩ := validate_sample_eq_ok ha
    cases lhs with
    | call => cases hb
    | _ =>
      cases hb
      obtain ⟨_, _, -, -, heq⟩ := expandSpecial_sample_eq_ok hexpanded
      cases heq
  | loop i lower upper body l =>
    obtain ⟨_, _, _, rfl, -⟩ := validate_rewritesEach.loop ha
    obtain ⟨_, _, _, rfl, -⟩ := unlink_rewritesEach.loop hb
    obtain ⟨_, _, _, heq, -⟩ := (expandSpecial_rewritesEach _).loop hexpanded
    cases heq
  | branch guard body l =>
    obtain ⟨_, _, rfl, -⟩ := validate_rewritesEach.branch ha
    obtain ⟨_, _, rfl, -⟩ := unlink_rewritesEach.branch hb
    obtain ⟨_, _, heq, -⟩ := (expandSpecial_rewritesEach _).branch hexpanded
    cases heq

/-- A logical definition becomes one of its validated and expanded right-hand side. -/
theorem Program.Normalizes.definiens {lhs rhs : Expr} {l : Option Location}
    (h : p.Normalizes (.assign lhs rhs l) st') :
    ∃ valid unlinked lhs' rhs' e, p.validate = .ok valid ∧ valid.unlink = .ok unlinked ∧
      st' = .assign lhs' rhs' l ∧ (Stmt.definiens lhs rhs).validate = .ok e ∧
      e.expandSpecial (samplesAll unlinked.statements) = .ok rhs' := by
  obtain ⟨valid, unlinked, hvalid, hunlinked, a, b, ha, hb, hexpanded⟩ := h
  refine ⟨valid, unlinked, ?_⟩
  obtain ⟨lhs₁, rhs₁, hlhs₁, hrhs₁, rfl⟩ := validate_assign_eq_ok ha
  rcases Expr.validateLinkedTarget_eq_ok hlhs₁ with
    ⟨f, x, x', k, rfl, rfl⟩ | ⟨x, rfl, rfl⟩ | ⟨base, is, js, k, rfl, rfl⟩
  · obtain ⟨inverse, lhs₂, hlookup, hargs, rfl⟩ := unlinkAssign_eq_ok hb
    obtain ⟨lhs', rhs', -, hrhs', rfl⟩ := expandSpecial_assign_eq_ok hexpanded
    refine ⟨lhs', rhs', _, hvalid, hunlinked, rfl, ?_, hrhs'⟩
    obtain ⟨before, after, hlinks, -⟩ := List.lookup_eq_some_iff.1 hlookup
    have hknown : Expr.isKnownCall inverse 1 := inverse_known (f, inverse) (by
      rw [hlinks]
      exact List.mem_append_right _ (List.mem_cons_self ..))
    rw [Stmt.definiens, hlookup, Expr.location_of_validate hrhs₁]
    simp only [Expr.validate, Expr.validateAll, List.length_cons, List.length_nil, Nat.zero_add,
      hknown, hrhs₁, Bool.not_true, Bool.false_eq_true, if_false]
    rfl
  · cases hb
    obtain ⟨lhs', rhs', -, hrhs', rfl⟩ := expandSpecial_assign_eq_ok hexpanded
    exact ⟨lhs', rhs', rhs₁, hvalid, hunlinked, rfl, hrhs₁, hrhs'⟩
  · cases hb
    obtain ⟨lhs', rhs', -, hrhs', rfl⟩ := expandSpecial_assign_eq_ok hexpanded
    exact ⟨lhs', rhs', rhs₁, hvalid, hunlinked, rfl, hrhs₁, hrhs'⟩

end Normalizes

end PlateModel
