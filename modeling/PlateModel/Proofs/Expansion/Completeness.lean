import PlateModel.Proofs.Expansion.Invariant

/-!
# Resolution computes the expansion

The definitions that resolution returns are those that the program expands to in the final state,
but for definitions that are dropped: a postponed definition is forgotten when another one is
absorbed that equals it as a tree. Constants are equal by value, so `x[TRUE]`, whose index is no
integer, is forgotten for the sake of `x[1]`. A dropped definition cannot be lowered in the final
state. So nothing is dropped if and only if every definition of the expansion can be lowered.

* `State.Defines`: the state has a rule, or a datum, for what a definition defines.
* `dropped_of_left`: whatever is left in the end has been forgotten.
* `resolve_expansion`: the definitions that resolution returns.
-/

namespace PlateModel

open Compiling

namespace State

/-- What stands on the left of a definition has a rule or, if the definition is logical, is bound by
data. -/
def Defines (t : State) : Stmt → Prop
  | .assign lhs _ _ => ∃ x, t.Denotes lhs x ∧
      (t.data.contains x.name ∨ t.logical.contains x.name)
  | .sample lhs _ _ => ∃ x, t.Denotes lhs x ∧ t.stochastic.contains x.name
  | _ => False

end State

namespace Resolution

variable {w w' : Resolution} {s s' t u : State} {results : List (Stmt × Absorption)} {st : Stmt}
  {why : Fault}

/-! ## Forgotten definitions -/

theorem absorbedOf_cons (r : Stmt × Absorption) (results : List (Stmt × Absorption)) :
    absorbedOf (r :: results) =
      if isLeft r then absorbedOf results else r.1 :: absorbedOf results := by
  unfold absorbedOf
  cases hr : isLeft r with
  | true => rw [List.filter_cons_of_neg (by simp [hr])]; rfl
  | false => rw [List.filter_cons_of_pos (by simp [hr])]; rfl

/-- A note stays, unless an equal definition is absorbed. -/
theorem mem_foldl_note : ∀ (results : List (Stmt × Absorption)) {noted : List (Stmt × Fault)},
    (st, why) ∈ noted →
      (st, why) ∈ results.foldl note noted ∨ ∃ v ∈ absorbedOf results, v.same st
  | [], _, h => .inl h
  | (v, .skipped) :: results, _, h => mem_foldl_note results h
  | (v, .postponed f) :: results, _, h =>
    mem_foldl_note results (List.mem_cons_of_mem (v, f) h)
  | (v, .absorbed new) :: results, noted, h => by
    rw [absorbedOf_cons]
    cases hv : v.same st with
    | true => exact .inr ⟨v, List.mem_cons_self .., hv⟩
    | false =>
      have hkept : (st, why) ∈ note noted (v, .absorbed new) :=
        List.mem_filter.2 ⟨h, by simp [hv]⟩
      refine (mem_foldl_note results hkept).imp id ?_
      exact fun ⟨v', hv', hsame⟩ => ⟨v', List.mem_cons_of_mem v hv', hsame⟩

theorem mem_foldl_note_of_postponed : ∀ {results : List (Stmt × Absorption)}
    (noted : List (Stmt × Fault)), (st, .postponed why) ∈ results →
      (st, why) ∈ results.foldl note noted ∨ ∃ v ∈ absorbedOf results, v.same st
  | r :: results, noted, h => by
    rcases List.mem_cons.1 h with rfl | h
    · exact mem_foldl_note results (List.mem_cons_self ..)
    · refine (mem_foldl_note_of_postponed _ h).imp id fun ⟨v, hv, hsame⟩ => ⟨v, ?_, hsame⟩
      rw [absorbedOf_cons]
      split
      · exact hv
      · exact List.mem_cons_of_mem _ hv

/-- When nothing stands in the way of what is left. -/
theorem checkDone_eq_ok : w.checkDone = .ok () ↔ (∀ st ∈ w.remaining, st.isFlat) ∧
    ∀ st ∈ w.remaining, ∀ p ∈ w.postponed, st.same p.1 = false := by
  unfold checkDone
  cases hflat : w.remaining.find? (!·.isFlat) with
  | some st =>
    refine ⟨nofun, fun h => ?_⟩
    have hst := List.find?_some hflat
    rw [h.1 st (List.mem_of_find?_eq_some hflat)] at hst
    cases hst
  | none =>
    have hflat : ∀ st ∈ w.remaining, st.isFlat := by simpa using List.find?_eq_none.1 hflat
    cases hfind : w.remaining.findSome? w.obstacle? with
    | some why =>
      refine ⟨nofun, fun h => ?_⟩
      obtain ⟨st, hst, hobstacle⟩ := List.exists_of_findSome?_eq_some hfind
      obtain ⟨p, hp, -⟩ := Option.map_eq_some_iff.1 hobstacle
      have hsame : st.same p.1 = true := by simpa using List.find?_some hp
      rw [h.2 st hst p (List.mem_of_find?_eq_some hp)] at hsame
      cases hsame
    | none =>
      refine ⟨fun _ => ⟨hflat, fun st hst p hp => ?_⟩, fun _ => rfl⟩
      have hnone := List.findSome?_eq_none_iff.1 hfind st hst
      have hfind := List.find?_eq_none.1 (Option.map_eq_none_iff.1 hnone) p hp
      simpa using hfind

/-! ## The last round -/

theorem size_of_mapM_absorbLogical : ∀ {ss : List Stmt} {as : List Absorption} {s t : State},
    ss.mapM absorbLogical s = (.ok as, t) →
      t.logical.size = s.logical.size + (ss.zip as).countP isNew
  | [], _, _, _, h => by
    rw [List.mapM_nil] at h
    cases h
    rfl
  | st :: ss, _, s, t, h => by
    rw [List.mapM_cons] at h
    obtain ⟨a, u, ha, h⟩ := run_bind_eq_ok.1 h
    obtain ⟨as, v, has, h⟩ := run_bind_eq_ok.1 h
    cases h
    rw [size_of_mapM_absorbLogical has, size_of_absorbLogical ha, List.zip_cons_cons,
      List.countP_cons]
    omega

/-- In the last round nothing is unrolled, decided or added. -/
theorem Rounds.exists_last (h : Rounds w s w' s') (hs : s.registry.WellFormed) :
    ∃ (w₀ : Resolution) (s₀ s₁ s₂ : State), s.Grows (fun _ => True) s₀ ∧
      (∀ {p q}, Stable p → Stable q → Stmt.EveryOfAll p q w.remaining →
        Stmt.EveryOfAll p q w₀.remaining) ∧
      w₀.unrollLoops s₀ = (.ok (w₀, 0), s₁) ∧ w₀.decideConditionals s₁ = (.ok (w₀, 0), s₂) ∧
      w₀.absorbDefinitions s₂ = (.ok (w', 0), s') := by
  induction h with
  | step hfirst _ ih =>
    have hstep := hfirst.grows_any hs
    obtain ⟨w₀, s₀, s₁, s₂, hs₀, hevery, h⟩ := ih hstep.registry.wellFormed
    exact ⟨w₀, s₀, s₁, s₂, hstep.trans hs₀, fun hp hq hw => hevery hp hq (hfirst.every hp hq hw),
      h⟩
  | last hunroll hdecide habsorb =>
    obtain rfl := unrollLoops_eq_zero hunroll
    obtain rfl := decideConditionals_eq_zero hdecide
    exact ⟨_, _, _, _, .refl hs, fun _ _ hw => hw, hunroll, hdecide, habsorb⟩

/-- Absorbing that adds no rule has tried everything that is left. -/
theorem attempt_of_absorbDefinitions (h : w.absorbDefinitions s = (.ok (w', 0), s'))
    (hs : s.registry.WellFormed) :
    ∃ (u : State) (results : List (Stmt × Absorption)),
      s.Grows (fun _ => True) u ∧ u.toDefinitions = s.toDefinitions ∧
      w.attempt absorbLogical u = (.ok results, s') ∧ s'.logical.size = u.logical.size ∧
      w'.remaining = leftOf results ∧ w'.postponed = results.foldl note [] ∧
      ∀ st ∈ absorbedOf results, st ∈ w'.absorbed := by
  obtain ⟨u, results, hu, hresults, hcount, rfl⟩ := absorbDefinitions_eq_ok.1 h
  have hrefers := absorbDefinitions_refers (Stmt.refersInAll_any w.remaining)
  refine ⟨u, results, hrefers.grows.of_eq hu hs, ?_, hresults, ?_, rfl, rfl,
    fun st hst => List.mem_append_right _ hst⟩
  · rw [(hrefers.of_eq hu hs).2]
  · obtain ⟨as, has, rfl⟩ := attempt_eq_ok.1 hresults
    rw [size_of_mapM_absorbLogical has, ← hcount]
    rfl

/-- In the last round no rule is added, and what is left has been tried again. -/
theorem Rounds.last_round (h : Rounds w s w' s') (hs : s.registry.WellFormed) :
    ∃ (w₀ : Resolution) (u : State) (results : List (Stmt × Absorption)),
      s.Grows (fun _ => True) u ∧ w₀.attempt absorbLogical u = (.ok results, s') ∧
      s'.logical.size = u.logical.size ∧ w'.remaining = leftOf results ∧
      w'.postponed = results.foldl note [] ∧ ∀ st ∈ absorbedOf results, st ∈ w'.absorbed := by
  obtain ⟨w₀, s₀, s₁, s₂, hs₀, -, hunroll, hdecide, habsorb⟩ := h.exists_last hs
  have h₁ := (Step.unroll hunroll).grows_any hs₀.registry.wellFormed
  have h₂ := (Step.decide hdecide).grows_any h₁.registry.wellFormed
  obtain ⟨u, results, hu, -, hrest⟩ := attempt_of_absorbDefinitions habsorb h₂.registry.wellFormed
  exact ⟨w₀, u, results, hs₀.trans (h₁.trans (h₂.trans hu)), hrest⟩

/-- Absorbing stochastic definitions changes no logical rule. -/
theorem rules_of_attempt (h : w.attempt absorbStochastic s = (.ok results, t)) :
    t.toDefinitions = s.toDefinitions := by
  obtain ⟨as, has, -⟩ := attempt_eq_ok.1 h
  have steps : ∀ {ss : List Stmt} {as : List Absorption} {s t : State},
      ss.mapM absorbStochastic s = (.ok as, t) → t.toDefinitions = s.toDefinitions := by
    intro ss
    induction ss with
    | nil =>
      intro as s t h
      rw [List.mapM_nil] at h
      cases h
      rfl
    | cons st ss ih =>
      intro as s t h
      rw [List.mapM_cons] at h
      obtain ⟨a, u, ha, h⟩ := run_bind_eq_ok.1 h
      obtain ⟨as, v, has, h⟩ := run_bind_eq_ok.1 h
      cases h
      rw [ih has, absorbStochastic_keepsRules ha]
  exact steps has

/-- What is postponed while no rule is added cannot be lowered in the end. -/
theorem not_lowers_of_between {f : Stmt → Compiling Absorption}
    (hf : ∀ {st s a t}, f st s = (.ok a, t) → Absorbs st s a t)
    (h : Between f s s' st (.postponed why))
    (ht : t.registry.WellFormed) (hsize : s'.logical.size = s.logical.size)
    (hrules : s'.toDefinitions = t.toDefinitions) (hle : s'.registry.Within t.registry)
    (hst : st.Every Expr.SingleCells Expr.SingleIndices) : ¬ t.Lowers st := by
  obtain ⟨u, v, hu, habsorbs, huv, hv⟩ := h
  have hus : u.toDefinitions = s.toDefinitions := hu.rules_eq (by
    rw [← hsize]
    exact Nat.le_trans huv.rules.size_le hv.rules.size_le)
  have hss' : s'.toDefinitions = s.toDefinitions :=
    (hu.trans (huv.trans hv)).rules_eq (Nat.le_of_eq hsize)
  have hut : u.toDefinitions = t.toDefinitions := by rw [hus, ← hss', hrules]
  cases hf habsorbs with
  | @postponed lhs rhs l _ _ hdefinition hlowered =>
    have hstuck := lowered_stuck (t := t) hlowered hu.registry.wellFormed ht hut
      (hv.registry.within.trans hle)
    rcases hdefinition with rfl | rfl
    · exact hstuck hst.1 hst.2
    · exact hstuck hst.1 hst.2

/-- A definition is logical or stochastic, so one of the two ways to absorb does not skip it. -/
theorem not_isFlat_of_skipped (h : Between absorbLogical s s' st .skipped)
    (h' : Between absorbStochastic u t st .skipped) : ¬ st.isFlat := by
  obtain ⟨_, _, _, h, _⟩ := h
  obtain ⟨_, _, _, h', _⟩ := h'
  intro hflat
  cases st with
  | assign lhs rhs l =>
    rcases absorbLogical_assign.1 h with ⟨_, _, h⟩ | ⟨_, _, _, _, _, _, h, _⟩ <;> cases h
  | sample lhs rhs l =>
    rcases (absorbStochastic_sample.1 h').2 with ⟨_, _, h⟩ | ⟨_, _, _, _, _, _, _, _, h, _⟩ <;>
      cases h
  | _ => cases hflat

/-- What is left in the end has been forgotten for the sake of an equal definition, and it cannot be
lowered. -/
theorem Rounds.dropped_of_left (h : Rounds w s w' u) (hs : s.registry.WellFormed)
    (hw : Stmt.EveryOfAll Expr.SingleCells Expr.SingleIndices w.remaining)
    (hresults : w'.attempt absorbStochastic u = (.ok results, t))
    (hdone : (w'.record results).checkDone = .ok ()) :
    ∀ st ∈ leftOf results, ¬ t.Lowers st ∧ ∃ v ∈ (w'.record results).absorbed, v.same st := by
  have hsu := h.grows_any hs
  have hut := grows_of_attempt absorbStochastic_grows_any hresults hsu.registry.wellFormed
  obtain ⟨hflat, hclear⟩ := checkDone_eq_ok.1 hdone
  have hfst := attempt_fst absorbStochastic w' _ _ _ hresults
  have hevery := h.every stable_singleCells stable_singleIndices hw
  have hrules := rules_of_attempt hresults
  intro st hst
  have hst' := hst
  obtain ⟨⟨st, a⟩, hr, rfl⟩ := List.mem_map.1 hst'
  obtain ⟨hr, hleft⟩ := List.mem_filter.1 hr
  have hmem : st ∈ w'.remaining := by
    rw [← hfst]
    exact List.mem_map_of_mem hr
  have hst_every := Stmt.everyOfAll_iff.1 hevery st hmem
  have hbetween := between_of_attempt absorbStochastic_grows_any hresults
    hsu.registry.wellFormed _ hr
  -- a note that is still there at the end would be an obstacle
  have gone {why : Fault} (hnoted : (st, why) ∈ results.foldl note w'.postponed) : False := by
    have := hclear st hst _ hnoted
    rw [st.same_refl] at this
    cases this
  cases a with
  | absorbed new => cases hleft
  | postponed why =>
    refine ⟨not_lowers_of_between absorbStochastic_absorbs hbetween hut.registry.wellFormed
      (by rw [hrules]) rfl (.refl _) hst_every, ?_⟩
    rcases mem_foldl_note_of_postponed w'.postponed hr with hnoted | ⟨v, hv, hsame⟩
    · exact (gone hnoted).elim
    · exact ⟨v, List.mem_append_right _ hv, hsame⟩
  | skipped =>
    obtain ⟨w₀, u₀, results₀, hsu₀, hresults₀, hsize, hremaining, hpostponed, habsorbed⟩ :=
      h.last_round hs
    -- a definition that is no stochastic one was postponed in the last round
    have hst₀ : st ∈ leftOf results₀ := hremaining ▸ hmem
    obtain ⟨⟨st₀, a₀⟩, hr₀, heq⟩ := List.mem_map.1 hst₀
    obtain rfl : st₀ = st := heq
    obtain ⟨hr₀, hleft₀⟩ := List.mem_filter.1 hr₀
    have hbetween₀ := between_of_attempt absorbLogical_grows_any hresults₀
      hsu₀.registry.wellFormed _ hr₀
    cases a₀ with
    | absorbed new => cases hleft₀
    | skipped => exact absurd (hflat _ hst) (not_isFlat_of_skipped hbetween₀ hbetween)
    | postponed why =>
      refine ⟨not_lowers_of_between absorbLogical_absorbs hbetween₀ hut.registry.wellFormed hsize
        hrules.symm hut.registry.within hst_every, ?_⟩
      rcases mem_foldl_note_of_postponed [] hr₀ with hnoted | ⟨v, hv, hsame⟩
      · rw [← hpostponed] at hnoted
        rcases mem_foldl_note results hnoted with hnoted | ⟨v, hv, hsame⟩
        · exact (gone hnoted).elim
        · exact ⟨v, List.mem_append_right _ hv, hsame⟩
      · exact ⟨v, List.mem_append_left _ (habsorbed v hv), hsame⟩

end Resolution

/-! ## What resolution returns -/

section Resolve

variable {p q : Program} {tally : Tally} {s t : State}

open Resolution (Between)

/-- Absorbing recorded this definition between two states. -/
def AbsorbedBetween (s t : State) (st : Stmt) : Prop := ∃ new,
  Between absorbLogical s t st (.absorbed new) ∨ Between absorbStochastic s t st (.absorbed new)

/-- Every definition that resolution returns has been absorbed, and the state has grown. -/
theorem absorbed_of_resolve (hs : s.registry.WellFormed) (h : p.resolve s = (.ok (q, tally), t)) :
    s.Grows (fun _ => True) t ∧ ∀ st ∈ q.statements, AbsorbedBetween s t st := by
  obtain ⟨w, u, results, hrounds, hresults, -, hq⟩ := Program.resolve_eq_ok h
  have hsu := hrounds.grows_any hs
  have hut := Resolution.grows_of_attempt Resolution.absorbStochastic_grows_any hresults
    hsu.registry.wellFormed
  refine ⟨hsu.trans hut, fun st hst => ?_⟩
  rw [hq] at hst
  rcases List.mem_append.1 hst with hst | hst
  · rcases hrounds.absorbed hs st hst with hst | ⟨new, hst⟩
    · cases hst
    · exact ⟨new, .inl (hst.mono (.refl hs) hut)⟩
  · obtain ⟨⟨st, a⟩, hr, rfl⟩ := List.mem_map.1 hst
    obtain ⟨hr, hleft⟩ := List.mem_filter.1 hr
    have hbetween := Resolution.between_of_attempt Resolution.absorbStochastic_grows_any hresults
      hsu.registry.wellFormed _ hr
    cases a with
    | absorbed new => exact ⟨new, .inr (hbetween.mono hsu (.refl hut.registry.wellFormed))⟩
    | _ => cases hleft

/-- What has been absorbed is lowered in the end, and what it defines has been recorded. -/
theorem AbsorbedBetween.defines {st : Stmt} (h : AbsorbedBetween s t st)
    (ht : t.registry.WellFormed) (hst : st.Every Expr.SingleCells Expr.SingleIndices) :
    t.Lowers st ∧ t.Defines st := by
  have of_absorbs {u v : State} {new : Bool} (hu : s.Grows (fun _ => True) u)
      (habsorbs : Absorbs st u (.absorbed new) v) (huv : u.Grows (fun _ => True) v)
      (hv : v.Grows (fun _ => True) t) : t.Lowers st ∧ t.Defines st := by
    obtain ⟨lhs, rhs, l, x, e, e', rfl | rfl, hx, he', -, hrecords⟩ :=
      habsorbs.lowers hu.registry.wellFormed ht huv.within hv.within hst
    · refine ⟨⟨⟨x, hx⟩, e', he'⟩, x, hx, ?_⟩
      rcases hrecords with ⟨v, hv, -⟩ | ⟨-, rule, hrule, -⟩
      · exact .inl (Assoc.contains_iff.2 ⟨v, hv⟩)
      · exact .inr (Assoc.contains_iff.2 ⟨rule, hrule⟩)
    · obtain ⟨rule, hrule, -⟩ := hrecords
      exact ⟨⟨⟨x, hx⟩, e', he'⟩, x, hx, Assoc.contains_iff.2 ⟨rule, hrule⟩⟩
  obtain ⟨new, ⟨u, v, hu, habsorbs, huv, hv⟩ | ⟨u, v, hu, habsorbs, huv, hv⟩⟩ := h
  · exact of_absorbs hu (absorbLogical_absorbs habsorbs) huv hv
  · exact of_absorbs hu (absorbStochastic_absorbs habsorbs) huv hv

/-- A program expands to the definitions that have been absorbed and those that are left. -/
theorem Resolution.Rounds.expands {w : Resolution} {u : State} {results : List (Stmt × Absorption)}
    (h : Rounds (.start p.statements) s w u)
    (hresults : w.attempt absorbStochastic u = (.ok results, t)) (hs : s.registry.WellFormed)
    (hp : Stmt.EveryOfAll Expr.SingleCells Expr.SingleIndices p.statements)
    (hflat : ∀ st ∈ leftOf results, st.isFlat) : ∃ flats, Expands t p.statements flats ∧
      flats.Perm ((w.record results).absorbed ++ leftOf results) := by
  have hsu := h.grows_any hs
  have hut := grows_of_attempt absorbStochastic_grows_any hresults hsu.registry.wellFormed
  have hbetween := between_of_attempt absorbStochastic_grows_any hresults hsu.registry.wellFormed
  -- what is left in the end is flat, so it expands to itself
  have hleft : Expands t (leftOf results) (leftOf results) := Unfolds.refl hflat
  obtain ⟨flats', hflats', hperm'⟩ := unfolds_of_results (t := t)
    (fun r hr => isFlat_of_absorbed absorbStochastic_absorbs (hbetween r hr)) hleft
  rw [attempt_fst absorbStochastic w _ _ _ hresults] at hflats'
  obtain ⟨flats, hflats, hperm⟩ :=
    h.unfolds hs hut.registry.wellFormed hut.within hp (fun _ _ h => h) hflats'
  refine ⟨flats, hflats, hperm.trans ((hperm'.append_left w.absorbed).trans ?_)⟩
  rw [← List.append_assoc]
  exact .refl _

/-- Resolution computes the expansion of a program, but for what it drops: nothing is invented or
doubled, and nothing is dropped if and only if the whole expansion can be lowered in the end. -/
theorem resolve_expansion {data : List (String × Datum)}
    (hs : State.seed data .empty = (.ok (), s))
    (hp : Stmt.EveryOfAll Expr.SingleCells Expr.SingleIndices p.statements)
    (h : p.resolve s = (.ok (q, tally), t)) :
    ∃ flats dropped, Expands t p.statements flats ∧ flats.Perm (q.statements ++ dropped) ∧
      (∀ st ∈ q.statements, t.Lowers st ∧ t.Defines st) ∧
      (∀ st ∈ dropped, ¬ t.Lowers st ∧ ∃ kept ∈ q.statements, kept.same st) ∧
      (q.statements.Perm flats ↔ ∀ st ∈ flats, t.Lowers st) := by
  have hs := (State.seeded_of_seed hs).wellFormed
  obtain ⟨hst, habsorbed⟩ := absorbed_of_resolve hs h
  have ht := hst.registry.wellFormed
  obtain ⟨w, u, results, hrounds, hresults, hdone, hq⟩ := Program.resolve_eq_ok h
  obtain ⟨flats, hflats, hall⟩ :=
    hrounds.expands hresults hs hp (Resolution.checkDone_eq_ok.1 hdone).1
  rw [← hq] at hall
  have hevery := Stmt.everyOfAll_iff.1 (hflats.every stable_singleCells stable_singleIndices hp)
  have hkept : ∀ st ∈ q.statements, t.Lowers st ∧ t.Defines st := fun st hst =>
    (habsorbed st hst).defines ht (hevery st (hall.mem_iff.2 (List.mem_append_left _ hst)))
  have hdropped := hrounds.dropped_of_left hs hp hresults hdone
  rw [← hq] at hdropped
  refine ⟨flats, _, hflats, hall, hkept, hdropped, fun hsame st hst => ?_, fun hlowers => ?_⟩
  · exact (hkept st (hsame.mem_iff.2 hst)).1
  · have hnone : Resolution.leftOf results = [] := by
      refine List.eq_nil_iff_forall_not_mem.2 fun st hst => ?_
      exact (hdropped st hst).1 (hlowers st (hall.mem_iff.2 (List.mem_append_right _ hst)))
    rw [hnone, List.append_nil] at hall
    exact hall.symm

/-- Gives two cells of an array their indices, in a loop. -/
def counting : Program :=
  ⟨[.loop "i" (.literal (.int 1) 0) (.literal (.int 2) 0)
    [.assign (.index (.name "x") [.name "i"] none) (.name "i") none] none], none⟩

/-- The definitions that `counting` comes to. -/
def counted : List Stmt :=
  [.assign (.index (.name "x") [.literal (.int 1) 0] none) (.literal (.int 1) 0) none,
    .assign (.index (.name "x") [.literal (.int 2) 0] none) (.literal (.int 2) 0) none]

/-- What `counting` comes to. -/
def countedState : State :=
  { State.empty with
    registry := ⟨⟨[("x", ⟨[2], [⟨"x", [1]⟩, ⟨"x", [2]⟩], 1⟩)]⟩⟩
    logical := ⟨[("x[1]", .literal (.int 1) 0), ("x[2]", .literal (.int 2) 0)]⟩ }

theorem resolve_counting :
    counting.resolve .empty =
      (.ok ({ counting with statements := counted }, ⟨1, 0, 2, 0⟩), countedState) := by
  have hunroll : (Resolution.start counting.statements).round .empty =
      (.ok ({ Resolution.start counted with tally := ⟨1, 0, 0, 0⟩ }, 1), .empty) := rfl
  have habsorb : ({ Resolution.start counted with tally := ⟨1, 0, 0, 0⟩ } : Resolution).round .empty
      = (.ok (⟨[], counted, [], ⟨1, 0, 2, 0⟩⟩, 2), countedState) := rfl
  have hdone : (⟨[], counted, [], ⟨1, 0, 2, 0⟩⟩ : Resolution).round countedState =
      (.ok (⟨[], counted, [], ⟨1, 0, 2, 0⟩⟩, 0), countedState) := rfl
  have hrun : (Resolution.start counting.statements).run .empty =
      (.ok ⟨[], counted, [], ⟨1, 0, 2, 0⟩⟩, countedState) := by
    rw [Resolution.run_of_round hunroll, if_neg (by decide), Resolution.run_of_round habsorb,
      if_neg (by decide), Resolution.run_of_round hdone, if_pos rfl]
  rw [Program.resolve, run_bind_of_ok hrun]
  rfl

theorem resolve_expansion_counting :
    ∃ flats dropped, Expands countedState counting.statements flats ∧
      flats.Perm (counted ++ dropped) ∧
      (∀ st ∈ counted, countedState.Lowers st ∧ countedState.Defines st) ∧
      (∀ st ∈ dropped, ¬ countedState.Lowers st ∧ ∃ kept ∈ counted, kept.same st) ∧
      (counted.Perm flats ↔ ∀ st ∈ flats, countedState.Lowers st) :=
  resolve_expansion (show State.seed [] .empty = (.ok (), .empty) from rfl) (by decide)
    resolve_counting

/-- The standard normal distribution. -/
def standardNormal : Expr := .call "dnorm" [.literal (.int 0) 0, .literal (.int 1) 0] none

/-- Samples two cells, the first of which has a truth value for its index. -/
def forgetful : Program :=
  ⟨[.sample (.index (.name "x") [.literal (.truth true) 0] none) standardNormal none,
    .sample (.index (.name "x") [.literal (.int 1) 0] none) standardNormal none], none⟩

/-- What `forgetful` comes to: only the second cell. -/
def forgetfulState : State :=
  { State.empty with
    registry := ⟨⟨[("x", ⟨[1], [⟨"x", [1]⟩], 0⟩)]⟩⟩
    stochastic := ⟨[("x[1]", ⟨standardNormal, []⟩)]⟩ }

theorem resolve_forgetful :
    forgetful.resolve .empty =
      (.ok ({ forgetful with statements := forgetful.statements.tail }, ⟨0, 0, 0, 1⟩),
        forgetfulState) := by
  have hround : (Resolution.start forgetful.statements).round .empty =
      (.ok (.start forgetful.statements, 0),
        { State.empty with registry := forgetfulState.registry }) := rfl
  rw [Program.resolve, run_bind_of_ok (Resolution.run_of_round hround)]
  rfl

/-- `TRUE` equals one, so the statement with the index one settles the other, which is then dropped
without a fault. -/
theorem resolve_drops :
    ¬ ∀ (data : List (String × Datum)) (s t : State) (p q : Program) (tally : Tally),
      State.seed data .empty = (.ok (), s) →
      Stmt.EveryOfAll Expr.SingleCells Expr.SingleIndices p.statements →
      p.resolve s = (.ok (q, tally), t) →
      ∃ flats, Expands t p.statements flats ∧ q.statements.Perm flats := by
  intro claim
  obtain ⟨flats, hflats, hperm⟩ :=
    claim [] .empty forgetfulState forgetful _ _ rfl (by decide) resolve_forgetful
  have hself : Expands forgetfulState forgetful.statements forgetful.statements :=
    .refl (by decide)
  rw [hflats.unique hself] at hperm
  exact absurd hperm.length_eq (by decide)

end Resolve

end PlateModel
