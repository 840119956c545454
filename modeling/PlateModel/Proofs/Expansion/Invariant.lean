import PlateModel.Proofs.Expansion.Rounds

/-!
# The invariant of resolution

Seen from the final state, no step loses or invents a definition: what has been absorbed and what
the rest expands to are together the same, in another order. What a step decides is decided the same
way in the final state, because rules are only added and constant outcomes persist.

* `unfolds_of_unrollAll`, `unfolds_of_decideAll`: unrolling and deciding keep the expansion.
* `Step.absorbed`, `Rounds.absorbed`: where the absorbed definitions have been absorbed.
* `Rounds.invariant`: what every step keeps, a run keeps.
* `Step.unfolds`, `Rounds.unfolds`: a step, and a run, keeps the definitions.
-/

namespace PlateModel

open Compiling

/-! ## Steps, backwards -/

variable {leaf : Stmt → Prop} {t : State}

/-- If every list that a computation makes expands to no more than what it is made of, then so do
all of them together. -/
theorem unfolds_flatMap_of_mapM {f : Int → Compiling (List Stmt × Nat)} {g : Int → List Stmt}
    (hgrows : ∀ k, Grows (fun _ => True) (f k))
    (hf : ∀ {k s s' r leaves}, f k s = (.ok r, s') → s.registry.WellFormed → s'.Within t →
      Unfolds leaf t r.1 leaves → Unfolds leaf t (g k) leaves) :
    ∀ {ks : List Int} {ts : List (List Stmt × Nat)} {s s' : State} {leaves : List Stmt},
      ks.mapM f s = (.ok ts, s') → s.registry.WellFormed → s'.Within t →
      Unfolds leaf t (ts.flatMap (·.1)) leaves → Unfolds leaf t (ks.flatMap g) leaves
  | [], _, _, _, _, h, _, _, hleaves => by
    rw [List.mapM_nil] at h
    cases h
    exact hleaves
  | k :: ks, ts, s, s', leaves, h, hs, hle, hleaves => by
    rw [List.mapM_cons] at h
    obtain ⟨r, u, hr, h⟩ := run_bind_eq_ok.1 h
    obtain ⟨rs, v, hrs, h⟩ := run_bind_eq_ok.1 h
    cases h
    have hsu := (hgrows k).of_eq hr hs
    have hus' := (Grows.mapM fun k _ => hgrows k).of_eq hrs hsu.registry.wellFormed
    rw [List.flatMap_cons] at hleaves
    obtain ⟨f₁, f₂, rfl, h₁, h₂⟩ := hleaves.append_inv
    rw [List.flatMap_cons]
    exact (hf hr hs (hus'.within.trans hle) h₁).append
      (unfolds_flatMap_of_mapM hgrows hf hrs hsu.registry.wellFormed hle h₂)

mutual

/-- What a statement is unrolled to expands to the same in every later state. -/
theorem unfolds_of_unroll (ht : t.registry.WellFormed) {env : Mapping} (henv : env.Literal) :
    ∀ {st : Stmt} {ss : List Stmt} {n : Nat} {s s' : State} {leaves : List Stmt},
      st.Every Expr.SingleCells Expr.SingleIndices →
      unroll env st s = (.ok (ss, n), s') → s.registry.WellFormed → s'.Within t →
      Unfolds leaf t ss leaves → Unfolds leaf t [st.substitute env] leaves
  | .assign .., _, _, _, _, _, _, h, _, _, hleaves
  | .sample .., _, _, _, _, _, _, h, _, _, hleaves
  | .branch .., _, _, _, _, _, _, h, _, _, hleaves => by cases h; exact hleaves
  | .loop i lower upper body l, ss, n, s, s', leaves, hst, h, hs, hle, hleaves => by
    rcases unroll_loop_eq_ok.1 h with ⟨-, rfl, -⟩ | ⟨a, b, u, ts, hbounds, hts, rfl, -⟩
    · exact hleaves
    · have hsu := (loopBounds_refers l Definitions.grows_any Definitions.grows_any).of_eq
        hbounds hs
      have hgrows (k : Int) :
          Grows (fun _ => True) (unrollAll ((i, .ofNumber (.int k)) :: env) body) :=
        (unrollAll_refers (henv.cons i (.int k)) (Stmt.refersInAll_any body)).grows
      have hus' := (Grows.mapM fun k _ => hgrows k).of_eq hts hsu.1.wellFormed
      obtain ⟨ha, hb⟩ := loopBounds_bound hbounds hs ht (hus'.within.trans hle)
        (hst.1.substitute henv) (hst.2.1.substitute henv)
      have hbody :
          Unfolds leaf t (turns i a b (Stmt.substituteAll (env.without i) body)) leaves := by
        refine unfolds_flatMap_of_mapM hgrows ?_ hts hsu.1.wellFormed hle hleaves
        intro k s s' r leaves hr hs hle hleaves
        rw [Stmt.substituteAll_turn henv]
        exact unfolds_of_unrollAll ht (henv.cons i (.int k)) hst.2.2 hr hs hle hleaves
      have h := Unfolds.loop (l := l) ha hb hbody .nil
      rwa [List.append_nil] at h

theorem unfolds_of_unrollAll (ht : t.registry.WellFormed) {env : Mapping} (henv : env.Literal) :
    ∀ {ss ss' : List Stmt} {n : Nat} {s s' : State} {leaves : List Stmt},
      Stmt.EveryOfAll Expr.SingleCells Expr.SingleIndices ss →
      unrollAll env ss s = (.ok (ss', n), s') → s.registry.WellFormed → s'.Within t →
      Unfolds leaf t ss' leaves → Unfolds leaf t (Stmt.substituteAll env ss) leaves
  | [], _, _, _, _, _, _, h, _, _, hleaves => by cases h; exact hleaves
  | st :: rest, ss', n, s, s', leaves, hss, h, hs, hle, hleaves => by
    obtain ⟨us, j, u, vs, k, hu, hv, rfl, -⟩ := unrollAll_cons_eq_ok.1 h
    have hsu := (unroll_refers henv (Stmt.refersIn_any st)).grows.of_eq hu hs
    have hus' := (unrollAll_refers henv (Stmt.refersInAll_any rest)).grows.of_eq hv
      hsu.registry.wellFormed
    obtain ⟨f₁, f₂, rfl, h₁, h₂⟩ := hleaves.append_inv
    exact (unfolds_of_unroll ht henv hss.1 hu hs (hus'.within.trans hle) h₁).append
      (unfolds_of_unrollAll ht henv hss.2 hv hsu.registry.wellFormed hle h₂)

end

mutual

/-- What a statement is decided to be expands to the same in every later state. -/
theorem unfolds_of_decideIn (ht : t.registry.WellFormed) : ∀ {st : Stmt} {ss : List Stmt} {n : Nat}
    {s s' : State} {leaves : List Stmt}, st.Every Expr.SingleCells Expr.SingleIndices →
      decideIn st s = (.ok (ss, n), s') → s.registry.WellFormed → s'.Within t →
      Unfolds leaf t ss leaves → Unfolds leaf t [st] leaves
  | .assign .., _, _, _, _, _, _, h, _, _, hleaves
  | .sample .., _, _, _, _, _, _, h, _, _, hleaves
  | .loop .., _, _, _, _, _, _, h, _, _, hleaves => by cases h; exact hleaves
  | .branch condition body l, ss, n, s, s', leaves, hst, h, hs, hle, hleaves => by
    rcases decideIn_branch_eq_ok.1 h with ⟨-, rfl, -⟩ | ⟨hguard, rfl, -⟩ | ⟨u, m, hguard, hbody, -⟩
    · exact hleaves
    · cases hleaves
      exact .skipped (guardValue_guard hguard hs ht hle hst.1) .nil
    · have hsu := (guardValue_refers l Definitions.grows_any).grows.of_eq hguard hs
      have hus' := (decideAll_refers (Stmt.refersInAll_any body)).grows.of_eq hbody
        hsu.registry.wellFormed
      have h := Unfolds.taken (l := l)
        (guardValue_guard hguard hs ht (hus'.within.trans hle) hst.1)
        (unfolds_of_decideAll ht hst.2 hbody hsu.registry.wellFormed hle hleaves) .nil
      rwa [List.append_nil] at h

theorem unfolds_of_decideAll (ht : t.registry.WellFormed) : ∀ {ss ss' : List Stmt} {n : Nat}
    {s s' : State} {leaves : List Stmt}, Stmt.EveryOfAll Expr.SingleCells Expr.SingleIndices ss →
      decideAll ss s = (.ok (ss', n), s') → s.registry.WellFormed → s'.Within t →
      Unfolds leaf t ss' leaves → Unfolds leaf t ss leaves
  | [], _, _, _, _, _, _, h, _, _, hleaves => by cases h; exact hleaves
  | st :: rest, ss', n, s, s', leaves, hss, h, hs, hle, hleaves => by
    obtain ⟨us, j, u, vs, k, hu, hv, rfl, -⟩ := decideAll_cons_eq_ok.1 h
    have hsu := (decideIn_refers (Stmt.refersIn_any st)).grows.of_eq hu hs
    have hus' := (decideAll_refers (Stmt.refersInAll_any rest)).grows.of_eq hv
      hsu.registry.wellFormed
    obtain ⟨f₁, f₂, rfl, h₁, h₂⟩ := hleaves.append_inv
    exact (unfolds_of_decideIn ht hss.1 hu hs (hus'.within.trans hle) h₁).append
      (unfolds_of_decideAll ht hss.2 hv hsu.registry.wellFormed hle h₂)

end

namespace Resolution

/-- The statements that have been absorbed. -/
def absorbedOf (results : List (Stmt × Absorption)) : List Stmt :=
  (results.filter (!isLeft ·)).map (·.1)

/-- The statements that are left. -/
def leftOf (results : List (Stmt × Absorption)) : List Stmt := (results.filter isLeft).map (·.1)

/-- Statements expand to those of them that have been absorbed and what the others expand to. -/
theorem unfolds_of_results : ∀ {results : List (Stmt × Absorption)} {leaves : List Stmt},
    (∀ r ∈ results, isLeft r = false → leaf r.1) → Unfolds leaf t (leftOf results) leaves →
      ∃ leaves', Unfolds leaf t (results.map (·.1)) leaves' ∧
        leaves'.Perm (absorbedOf results ++ leaves)
  | [], _, _, h => ⟨_, h, .refl _⟩
  | r :: results, leaves, hleaf, h => by
    have hrest : ∀ r ∈ results, isLeft r = false → leaf r.1 := fun r' hr' =>
      hleaf r' (List.mem_cons_of_mem r hr')
    cases hr : isLeft r with
    | true =>
      have hleft : leftOf (r :: results) = [r.1] ++ leftOf results := by
        rw [leftOf, List.filter_cons_of_pos hr]
        rfl
      have habsorbed : absorbedOf (r :: results) = absorbedOf results := by
        rw [absorbedOf, List.filter_cons_of_neg (by simp [hr])]
        rfl
      rw [hleft] at h
      obtain ⟨f₁, f₂, rfl, h₁, h₂⟩ := h.append_inv
      obtain ⟨f', hf', hperm⟩ := unfolds_of_results hrest h₂
      refine ⟨f₁ ++ f', h₁.append hf', ?_⟩
      rw [habsorbed]
      refine (hperm.append_left f₁).trans ?_
      rw [← List.append_assoc, ← List.append_assoc]
      exact List.perm_append_comm.append_right f₂
    | false =>
      have hleft : leftOf (r :: results) = leftOf results := by
        rw [leftOf, List.filter_cons_of_neg (by simp [hr])]
        rfl
      have habsorbed : absorbedOf (r :: results) = r.1 :: absorbedOf results := by
        rw [absorbedOf, List.filter_cons_of_pos (by simp [hr])]
        rfl
      rw [hleft] at h
      obtain ⟨f', hf', hperm⟩ := unfolds_of_results hrest h
      refine ⟨r.1 :: f', .leaf (hleaf r (List.mem_cons_self ..) hr) hf', ?_⟩
      rw [habsorbed]
      exact hperm.cons r.1

variable {w w' : Resolution} {n : Nat} {s s' u : State} {results : List (Stmt × Absorption)}

/-! ## Where definitions are absorbed -/

/-- Between two states absorbing made this of a statement. -/
def Between (f : Stmt → Compiling Absorption) (s t : State) (st : Stmt) (a : Absorption) : Prop :=
  ∃ u v, s.Grows (fun _ => True) u ∧ f st u = (.ok a, v) ∧ u.Grows (fun _ => True) v ∧
    v.Grows (fun _ => True) t

theorem Between.mono {f : Stmt → Compiling Absorption} {st : Stmt} {a : Absorption}
    (hs : s.Grows (fun _ => True) u) (h : Between f u s' st a)
    (ht : s'.Grows (fun _ => True) t) : Between f s t st a := by
  obtain ⟨v, v', hv, hst, hvv', hv'⟩ := h
  exact ⟨v, v', hs.trans hv, hst, hvv', hv'.trans ht⟩

theorem between_of_attempt {f : Stmt → Compiling Absorption}
    (hgrows : ∀ st, Grows (fun _ => True) (f st)) (h : w.attempt f s = (.ok results, s'))
    (hs : s.registry.WellFormed) : ∀ r ∈ results, Between f s s' r.1 r.2 := by
  obtain ⟨as, has, rfl⟩ := attempt_eq_ok.1 h
  intro r hr
  obtain ⟨u, v, hsu, hstep, hvs'⟩ := Advances.mapM_steps Order.refl Order.trans
    (fun st _ => hgrows st) has r hr
  have huv := (hgrows r.1).of_eq hstep (hsu hs).registry.wellFormed
  exact ⟨u, v, hsu hs, hstep, huv, hvs' huv.registry.wellFormed⟩

/-- Only definitions are absorbed. -/
theorem isFlat_of_absorbed {f : Stmt → Compiling Absorption}
    (hf : ∀ {st s a t}, f st s = (.ok a, t) → Absorbs st s a t) {r : Stmt × Absorption}
    (hr : Between f s s' r.1 r.2) (hleft : isLeft r = false) : r.1.isFlat := by
  obtain ⟨st, a⟩ := r
  obtain ⟨u, v, -, hst, -⟩ := hr
  cases hf hst with
  | absorbed hst => rcases hst with rfl | rfl <;> rfl
  | _ => cases hleft

theorem absorbLogical_grows_any (st : Stmt) : Grows (fun _ => True) (absorbLogical st) :=
  absorbLogical_grows (Stmt.refersIn_any st)

theorem absorbStochastic_grows_any (st : Stmt) : Grows (fun _ => True) (absorbStochastic st) :=
  absorbStochastic_grows (Stmt.refersIn_any st)

/-- An attempt adds rules and lets arrays grow. -/
theorem grows_of_attempt {f : Stmt → Compiling Absorption}
    (hgrows : ∀ st, Grows (fun _ => True) (f st)) (h : w.attempt f s = (.ok results, s'))
    (hs : s.registry.WellFormed) : s.Grows (fun _ => True) s' :=
  (attempt_grows fun st _ => hgrows st).of_eq h hs

theorem Step.grows_any (h : Step w s w' n s') (hs : s.registry.WellFormed) :
    s.Grows (fun _ => True) s' := h.grows (Stmt.refersInAll_any _) hs

theorem Rounds.grows_any (h : Rounds w s w' s') (hs : s.registry.WellFormed) :
    s.Grows (fun _ => True) s' := h.grows (Stmt.refersInAll_any _) hs

/-- The definitions that a step absorbs. -/
theorem Step.absorbed (h : Step w s w' n s') (hs : s.registry.WellFormed) :
    ∀ st ∈ w'.absorbed, st ∈ w.absorbed ∨ ∃ new, Between absorbLogical s s' st (.absorbed new) := by
  cases h with
  | unroll h =>
    obtain ⟨ss, -, rfl⟩ := unrollLoops_eq_ok.1 h
    exact fun st hst => .inl hst
  | decide h =>
    obtain ⟨ss, -, rfl⟩ := decideConditionals_eq_ok.1 h
    exact fun st hst => .inl hst
  | absorb h =>
    obtain ⟨u, results, hu, hresults, -, rfl⟩ := absorbDefinitions_eq_ok.1 h
    have hsu := (absorbDefinitions_refers (Stmt.refersInAll_any _)).grows.of_eq hu hs
    intro st hst
    refine (List.mem_append.1 hst).imp id fun hst => ?_
    obtain ⟨⟨st', a⟩, hr, rfl⟩ := List.mem_map.1 hst
    obtain ⟨hr, hleft⟩ := List.mem_filter.1 hr
    have hbetween := between_of_attempt absorbLogical_grows_any hresults hsu.registry.wellFormed
      _ hr
    cases a with
    | absorbed new =>
      obtain ⟨u', v', hu', hst', huv', hv'⟩ := hbetween
      exact ⟨new, u', v', hsu.trans hu', hst', huv', hv'⟩
    | _ => cases hleft

/-- The definitions that a run absorbs. -/
theorem Rounds.absorbed (h : Rounds w s w' s') (hs : s.registry.WellFormed) :
    ∀ st ∈ w'.absorbed, st ∈ w.absorbed ∨ ∃ new, Between absorbLogical s s' st (.absorbed new) := by
  induction h with
  | step h rest ih =>
    have hstep := h.grows_any hs
    have hrest := rest.grows_any hstep.registry.wellFormed
    intro st hst
    rcases ih hstep.registry.wellFormed st hst with hst | ⟨new, hst⟩
    · exact (h.absorbed hs st hst).imp id fun ⟨new, hst⟩ =>
        ⟨new, hst.mono (.refl hs) hrest⟩
    · exact .inr ⟨new, hst.mono hstep (.refl hrest.registry.wellFormed)⟩
  | last hunroll hdecide habsorb =>
    have h₁ := (Step.unroll hunroll).grows_any hs
    have h₂ := (Step.decide hdecide).grows_any h₁.registry.wellFormed
    have h₃ := (Step.absorb habsorb).grows_any h₂.registry.wellFormed
    intro st hst
    refine ((Step.absorb habsorb).absorbed h₂.registry.wellFormed st hst).imp id ?_
    exact fun ⟨new, hst⟩ => ⟨new, hst.mono (h₁.trans h₂) (.refl h₃.registry.wellFormed)⟩

/-! ## The invariant of a run -/

/-- What has been absorbed stays absorbed. -/
theorem Step.absorbed_subset (h : Step w s w' n s') : w.absorbed ⊆ w'.absorbed := by
  cases h with
  | unroll h => obtain ⟨_, -, rfl⟩ := unrollLoops_eq_ok.1 h; exact List.Subset.refl _
  | decide h => obtain ⟨_, -, rfl⟩ := decideConditionals_eq_ok.1 h; exact List.Subset.refl _
  | absorb h =>
    obtain ⟨_, _, -, -, -, rfl⟩ := absorbDefinitions_eq_ok.1 h
    exact List.subset_append_left ..

theorem Rounds.absorbed_subset (h : Rounds w s w' s') : w.absorbed ⊆ w'.absorbed := by
  induction h with
  | step h _ ih => exact List.Subset.trans h.absorbed_subset ih
  | last hunroll hdecide habsorb =>
    obtain rfl := unrollLoops_eq_zero hunroll
    obtain rfl := decideConditionals_eq_zero hdecide
    exact (Step.absorb habsorb).absorbed_subset

/-- What every step keeps, a run keeps. -/
theorem Rounds.invariant {motive : Resolution → State → Prop} (h : Rounds w s w' s')
    (hs : s.registry.WellFormed) (hle : s'.Within t)
    (hstep : ∀ {v v' n u u'}, Step v u v' n u' → u.registry.WellFormed → u'.Within t →
      v'.absorbed ⊆ w'.absorbed → motive v u → motive v' u') (hstart : motive w s) :
    motive w' s' := by
  induction h with
  | step h rest ih =>
    have hgrows := h.grows_any hs
    have hrest := rest.grows_any hgrows.registry.wellFormed
    refine ih hgrows.registry.wellFormed hle hstep ?_
    exact hstep h hs (hrest.within.trans hle) rest.absorbed_subset hstart
  | last hunroll hdecide habsorb =>
    -- a step that changes nothing leaves what there is to resolve
    obtain rfl := unrollLoops_eq_zero hunroll
    obtain rfl := decideConditionals_eq_zero hdecide
    have h₁ := (Step.unroll hunroll).grows_any hs
    have h₂ := (Step.decide hdecide).grows_any h₁.registry.wellFormed
    have h₃ := (Step.absorb habsorb).grows_any h₂.registry.wellFormed
    have hsubset := (Step.absorb habsorb).absorbed_subset
    have hmotive₁ := hstep (.unroll hunroll) hs ((h₂.trans h₃).within.trans hle) hsubset hstart
    have hmotive₂ := hstep (.decide hdecide) h₁.registry.wellFormed (h₃.within.trans hle) hsubset
      hmotive₁
    exact hstep (.absorb habsorb) h₂.registry.wellFormed hle (List.Subset.refl _) hmotive₂

/-- Whatever is left after a step expands to, together with what has been absorbed, comes from what
was left before. -/
theorem Step.unfolds (h : Step w s w' n s') (hs : s.registry.WellFormed)
    (ht : t.registry.WellFormed) (hle : s'.Within t)
    (hw : Stmt.EveryOfAll Expr.SingleCells Expr.SingleIndices w.remaining) {leaves' : List Stmt}
    (hleaf : ∀ st ∈ w'.absorbed, st.isFlat → leaf st)
    (hleaves : Unfolds leaf t w'.remaining leaves') :
    ∃ leaves, Unfolds leaf t w.remaining leaves ∧
      (w.absorbed ++ leaves).Perm (w'.absorbed ++ leaves') := by
  cases h with
  | unroll h =>
    obtain ⟨ss, hss, rfl⟩ := unrollLoops_eq_ok.1 h
    have hunfolds := unfolds_of_unrollAll ht Mapping.literal_nil hw hss hs hle hleaves
    rw [Stmt.substituteAll_nil] at hunfolds
    exact ⟨leaves', hunfolds, .refl _⟩
  | decide h =>
    obtain ⟨ss, hss, rfl⟩ := decideConditionals_eq_ok.1 h
    exact ⟨leaves', unfolds_of_decideAll ht hw hss hs hle hleaves, .refl _⟩
  | absorb h =>
    obtain ⟨u, results, hu, hresults, -, rfl⟩ := absorbDefinitions_eq_ok.1 h
    have hsu := (absorbDefinitions_refers (Stmt.refersInAll_any _)).grows.of_eq hu hs
    have hfst := attempt_fst absorbLogical w _ _ _ hresults
    have hbetween := between_of_attempt absorbLogical_grows_any hresults hsu.registry.wellFormed
    have habsorbed : ∀ r ∈ results, isLeft r = false → leaf r.1 := fun r hr hleft => by
      refine hleaf r.1 (List.mem_append_right _ ?_)
        (isFlat_of_absorbed absorbLogical_absorbs (hbetween r hr) hleft)
      exact List.mem_map_of_mem (List.mem_filter.2 ⟨hr, by simp [hleft]⟩)
    obtain ⟨leaves, hunfolds, hperm⟩ := unfolds_of_results habsorbed hleaves
    rw [hfst] at hunfolds
    refine ⟨leaves, hunfolds, (hperm.append_left w.absorbed).trans ?_⟩
    rw [← List.append_assoc]
    exact .refl _

/-- Whatever is left after a run expands to, together with what has been absorbed, comes from what
was there before. -/
theorem Rounds.unfolds (h : Rounds w s w' s') (hs : s.registry.WellFormed)
    (ht : t.registry.WellFormed) (hle : s'.Within t)
    (hw : Stmt.EveryOfAll Expr.SingleCells Expr.SingleIndices w.remaining) {leaves' : List Stmt}
    (hleaf : ∀ st ∈ w'.absorbed, st.isFlat → leaf st)
    (hleaves : Unfolds leaf t w'.remaining leaves') :
    ∃ leaves, Unfolds leaf t w.remaining leaves ∧
      (w.absorbed ++ leaves).Perm (w'.absorbed ++ leaves') := by
  induction h with
  | step h rest ih =>
    have hstep := h.grows_any hs
    have hrest := rest.grows_any hstep.registry.wellFormed
    obtain ⟨leaves, hleaves, hperm⟩ := ih hstep.registry.wellFormed hle
      (h.every stable_singleCells stable_singleIndices hw) hleaf hleaves
    obtain ⟨leaves₀, hleaves₀, hperm₀⟩ := h.unfolds hs ht (hrest.within.trans hle) hw
      (fun st hst => hleaf st (rest.absorbed_subset hst)) hleaves
    exact ⟨leaves₀, hleaves₀, hperm₀.trans hperm⟩
  | last hunroll hdecide habsorb =>
    have h₁ := (Step.unroll hunroll).grows_any hs
    have h₂ := (Step.decide hdecide).grows_any h₁.registry.wellFormed
    exact (Step.absorb habsorb).unfolds h₂.registry.wellFormed ht hle hw hleaf hleaves

end Resolution

end PlateModel
