import PlateModel.Proofs.Confluence.Finished
import PlateModel.Proofs.Expansion.Invariant

/-!
# Resolution does not fail on the way

Statements that expand, in a finished state, to definitions that it settles can be resolved as long
as the state is on the way to the finished one: no step of the run fails, and what is left still
expands to such definitions.

* `unrollAll_stays`, `decideAll_stays`: unrolling and deciding keep the expansion.
* `Resolution.Settling`: what is left is settled in the end.
* `Resolution.run_stays`: a run returns, and what it leaves is settled in the end.
-/

namespace PlateModel

open Compiling

variable {t : State}

/-! ## Unrolling and deciding -/

/-- If every part can be made into what expands to the same, so can all of them. -/
theorem mapM_stays_of_unfolds {f : Int → Compiling (List Stmt × Nat)} {g : Int → List Stmt}
    (hf : ∀ {k flats}, Expands t (g k) flats → Stays t (f k) fun r => Expands t r.1 flats) :
    ∀ {ks : List Int} {flats : List Stmt}, Expands t (ks.flatMap g) flats →
      Stays t (ks.mapM f) fun rs => Expands t (rs.flatMap (·.1)) flats
  | [], _, h => by
    rw [List.mapM_nil]
    exact .pure h
  | k :: ks, _, h => by
    rw [List.flatMap_cons] at h
    obtain ⟨f₁, f₂, rfl, h₁, h₂⟩ := h.append_inv
    rw [List.mapM_cons]
    refine (hf h₁).bind fun r hr => (mapM_stays_of_unfolds hf h₂).bind fun rs hrs => .pure ?_
    rw [List.flatMap_cons]
    exact hr.append hrs

mutual

/-- A statement that has an expansion in the end is unrolled to statements that have the same. -/
theorem unroll_stays (ht : t.registry.WellFormed) {q : Expr → Prop} {env : Mapping}
    (henv : env.Literal) : ∀ {st : Stmt} {flats : List Stmt}, st.Every Expr.SingleCells q →
      Expands t [st.substitute env] flats →
      Stays t (unroll env st) fun r => Expands t r.1 flats
  | .assign .., _, _, h | .sample .., _, _, h | .branch .., _, _, h => .pure h
  | .loop i lower upper body l, flats, hst, h => by
    unfold unroll
    have hbounds {a b : Int} (ha : t.Bound (lower.substitute env) a)
        (hb : t.Bound (upper.substitute env) b) :=
      loopBounds_stays ht ha hb (hst.1.substitute henv) (hst.2.1.substitute henv) l
    cases h with
    | leaf hs => cases hs
    | @loop _ _ _ a b _ _ inner _ _ ha hb hbody hrest =>
      refine (hbounds ha hb).bind ?_
      rintro _ (rfl | rfl)
      · exact .pure (.loop ha hb hbody hrest)
      · cases hrest
        have hturn {k : Int} {flats : List Stmt}
            (h : Expands t (Stmt.substituteAll [(i, .ofNumber (.int k))]
              (Stmt.substituteAll (env.without i) body)) flats) :
            Stays t (unrollAll ((i, .ofNumber (.int k)) :: env) body) fun r =>
              Expands t r.1 flats := by
          rw [Stmt.substituteAll_turn henv] at h
          exact unrollAll_stays ht (henv.cons i (.int k)) hst.2.2 h
        refine (mapM_stays_of_unfolds hturn hbody).bind fun turns hturns => .pure ?_
        rw [List.append_nil]
        exact hturns

theorem unrollAll_stays (ht : t.registry.WellFormed) {q : Expr → Prop} {env : Mapping}
    (henv : env.Literal) : ∀ {ss flats : List Stmt}, Stmt.EveryOfAll Expr.SingleCells q ss →
      Expands t (Stmt.substituteAll env ss) flats →
      Stays t (unrollAll env ss) fun r => Expands t r.1 flats
  | [], _, _, h => .pure h
  | st :: rest, _, hss, h => by
    obtain ⟨f₁, f₂, rfl, h₁, h₂⟩ := h.cons_inv
    unfold unrollAll
    refine (unroll_stays ht henv hss.1 h₁).bind fun r hr => ?_
    exact (unrollAll_stays ht henv hss.2 h₂).bind fun r' hr' => .pure (hr.append hr')

end

mutual

/-- A statement that has an expansion in the end is decided to be statements that have the same. -/
theorem decideIn_stays (ht : t.registry.WellFormed) {q : Expr → Prop} :
    ∀ {st : Stmt} {flats : List Stmt}, st.Every Expr.SingleCells q → Expands t [st] flats →
      Stays t (decideIn st) fun r => Expands t r.1 flats
  | .assign .., _, _, h | .sample .., _, _, h | .loop .., _, _, h => .pure h
  | .branch condition body l, flats, hst, h => by
    unfold decideIn
    cases h with
    | leaf hs => cases hs
    | taken hguard hbody hrest =>
      refine (guardValue_stays ht hguard hst.1 l).bind ?_
      rintro _ (rfl | rfl)
      · exact .pure (.taken hguard hbody hrest)
      · cases hrest
        rw [List.append_nil]
        exact (decideAll_stays ht hst.2 hbody).bind fun r hr => .pure hr
    | skipped hguard hrest =>
      refine (guardValue_stays ht hguard hst.1 l).bind ?_
      rintro _ (rfl | rfl)
      · exact .pure (.skipped hguard hrest)
      · exact .pure hrest

theorem decideAll_stays (ht : t.registry.WellFormed) {q : Expr → Prop} :
    ∀ {ss flats : List Stmt}, Stmt.EveryOfAll Expr.SingleCells q ss → Expands t ss flats →
      Stays t (decideAll ss) fun r => Expands t r.1 flats
  | [], _, _, h => .pure h
  | st :: rest, _, hss, h => by
    obtain ⟨f₁, f₂, rfl, h₁, h₂⟩ := h.cons_inv
    unfold decideAll
    refine (decideIn_stays ht hss.1 h₁).bind fun r hr => ?_
    exact (decideAll_stays ht hss.2 h₂).bind fun r' hr' => .pure (hr.append hr')

end

/-! ## Rounds -/

/-- What is left of some statements unfolds to a part of what they unfold to. -/
theorem Unfolds.sublist {leaf : Stmt → Prop} {ss ss' leaves : List Stmt} (hs : ss'.Sublist ss)
    (h : Unfolds leaf t ss leaves) : ∃ leaves', Unfolds leaf t ss' leaves' ∧ leaves' ⊆ leaves := by
  induction hs generalizing leaves with
  | slnil => exact ⟨leaves, h, List.Subset.refl _⟩
  | cons s _ ih =>
    obtain ⟨f, f', rfl, -, h'⟩ := h.cons_inv
    obtain ⟨g, hg, hsubset⟩ := ih h'
    exact ⟨g, hg, List.Subset.trans hsubset (List.subset_append_right ..)⟩
  | cons_cons s _ ih =>
    obtain ⟨f, f', rfl, hf, h'⟩ := h.cons_inv
    obtain ⟨g, hg, hsubset⟩ := ih h'
    exact ⟨f ++ g, hf.append hg, List.append_subset.2
      ⟨List.subset_append_left .., List.Subset.trans hsubset (List.subset_append_right ..)⟩⟩

/-- Among statements that expand, a definition is one of what they expand to. -/
theorem Unfolds.mem_of_isFlat {ss flats : List Stmt} (h : Expands t ss flats) {st : Stmt}
    (hst : st ∈ ss) (hflat : st.isFlat) : st ∈ flats := by
  induction h with
  | nil => cases hst
  | leaf _ _ ih =>
    rcases List.mem_cons.1 hst with rfl | hst
    · exact List.mem_cons_self ..
    · exact List.mem_cons_of_mem _ (ih hst)
  | loop _ _ _ _ _ ih | taken _ _ _ _ ih =>
    rcases List.mem_cons.1 hst with rfl | hst
    · cases hflat
    · exact List.mem_append_right _ (ih hst)
  | skipped _ _ ih =>
    rcases List.mem_cons.1 hst with rfl | hst
    · cases hflat
    · exact ih hst

namespace Resolution

variable {w : Resolution}

/-- What is left expands, in the finished state, to definitions that this settles. -/
structure Settling (t : State) (w : Resolution) : Prop where
  single : Stmt.EveryOfAll Expr.SingleCells Expr.SingleCells w.remaining
  settles : ∃ flats, Expands t w.remaining flats ∧ ∀ st ∈ flats, t.Settles st

theorem Settling.of_sublist (h : w.Settling t) {w' : Resolution}
    (hs : w'.remaining.Sublist w.remaining) : w'.Settling t := by
  obtain ⟨flats, hflats, hsettles⟩ := h.settles
  obtain ⟨flats', hflats', hsubset⟩ := hflats.sublist hs
  refine ⟨Stmt.everyOfAll_iff.2 fun st hst => ?_, flats', hflats', fun st hst => ?_⟩
  · exact Stmt.everyOfAll_iff.1 h.single st (hs.subset hst)
  · exact hsettles st (hsubset hst)

/-- A definition that is left is settled in the end. -/
theorem Settling.settles_of_isFlat (h : w.Settling t) {st : Stmt} (hst : st ∈ w.remaining)
    (hflat : st.isFlat) : t.Settles st := by
  obtain ⟨flats, hflats, hsettles⟩ := h.settles
  exact hsettles st (hflats.mem_of_isFlat hst hflat)

theorem unrollLoops_stays (ht : t.registry.WellFormed) (hw : w.Settling t) :
    Stays t w.unrollLoops fun r => r.1.Settling t := by
  obtain ⟨flats, hflats, hsettles⟩ := hw.settles
  rw [← Stmt.substituteAll_nil w.remaining] at hflats
  intro u hu
  obtain ⟨⟨ss, n⟩, v, hv, hinside, hss⟩ :=
    unrollAll_stays ht Mapping.literal_nil hw.single hflats hu
  refine ⟨_, v, unrollLoops_eq_ok.2 ⟨ss, hv, rfl⟩, hinside, ?_, flats, hss, hsettles⟩
  exact unrollAll_every stable_singleCells stable_singleCells Mapping.literal_nil hw.single _ _ _ hv

theorem decideConditionals_stays (ht : t.registry.WellFormed) (hw : w.Settling t) :
    Stays t w.decideConditionals fun r => r.1.Settling t := by
  obtain ⟨flats, hflats, hsettles⟩ := hw.settles
  intro u hu
  obtain ⟨⟨ss, n⟩, v, hv, hinside, hss⟩ := decideAll_stays ht hw.single hflats hu
  refine ⟨_, v, decideConditionals_eq_ok.2 ⟨ss, hv, rfl⟩, hinside, ?_, flats, hss, hsettles⟩
  exact decideAll_every hw.single _ _ _ hv

/-- Definitions that are settled in the end can be absorbed. -/
theorem attempt_stays {f : Stmt → Compiling Absorption} (hw : w.Settling t)
    (hf : ∀ {st}, t.Settles st → st.Every Expr.SingleCells Expr.SingleCells →
      Stays t (f st) fun _ => True)
    (hskip : ∀ {st}, ¬ st.isFlat → f st = pure .skipped) :
    Stays t (w.attempt f) fun _ => True := by
  refine (Stays.mapM fun st hst => ?_).bind fun _ _ => .pure trivial
  by_cases hflat : st.isFlat
  · exact hf (hw.settles_of_isFlat hst hflat) (Stmt.everyOfAll_iff.1 hw.single st hst)
  · rw [hskip hflat]
    exact .pure trivial

theorem attemptLogical_stays (ht : t.registry.WellFormed) (hw : w.Settling t) :
    Stays t (w.attempt absorbLogical) fun _ => True := by
  refine attempt_stays hw (fun h hst => absorbLogical_stays ht h hst) fun {st} hflat => ?_
  cases st with
  | assign => exact absurd rfl hflat
  | _ => rfl

theorem attemptStochastic_stays (ht : t.registry.WellFormed) (hw : w.Settling t) :
    Stays t (w.attempt absorbStochastic) fun _ => True := by
  refine attempt_stays hw (fun h hst => absorbStochastic_stays ht h hst) fun {st} hflat => ?_
  cases st with
  | sample => exact absurd rfl hflat
  | _ => rfl

theorem registerTargets_stays (ht : t.registry.WellFormed) (hw : w.Settling t) :
    Stays t (w.remaining.forM registerTarget) fun _ => True := by
  refine .forM fun st hst => ?_
  have hsingle := Stmt.everyOfAll_iff.1 hw.single st hst
  cases st with
  | assign lhs rhs l =>
    obtain ⟨x, e, hx, -⟩ := hw.settles_of_isFlat hst rfl
    exact registerTarget_stays ht (.inl rfl) hx hsingle.1
  | sample lhs rhs l =>
    obtain ⟨-, x, e, g, hx, -⟩ := hw.settles_of_isFlat hst rfl
    exact registerTarget_stays ht (.inr rfl) hx hsingle.1
  | _ => exact .pure trivial

theorem absorbDefinitions_stays (ht : t.registry.WellFormed) (hw : w.Settling t) :
    Stays t w.absorbDefinitions fun r => r.1.Settling t := by
  intro u hu
  obtain ⟨⟨⟩, v, hv, hinside, -⟩ := registerTargets_stays ht hw hu
  obtain ⟨results, v', hresults, hinside', -⟩ := attemptLogical_stays ht hw hinside
  refine ⟨_, v', absorbDefinitions_eq_ok.2 ⟨v, results, hv, hresults, rfl, rfl⟩, hinside', ?_⟩
  refine hw.of_sublist ?_
  rw [← attempt_fst absorbLogical w _ _ _ hresults]
  exact (List.filter_sublist ..).map _

theorem round_stays (ht : t.registry.WellFormed) (hw : w.Settling t) :
    Stays t w.round fun r => r.1.Settling t := by
  unfold round
  refine (unrollLoops_stays ht hw).bind fun r hr => ?_
  dsimp only
  split
  · exact .pure hr
  · refine (decideConditionals_stays ht hw).bind fun r hr => ?_
    split
    · exact .pure hr
    · exact absorbDefinitions_stays ht hw

/-- A run returns, and what it leaves is settled in the end. -/
theorem run_stays (ht : t.registry.WellFormed) {w : Resolution} (hw : w.Settling t) :
    Stays t w.run (·.Settling t) := by
  intro u hu
  obtain ⟨⟨next, n⟩, v, hround, hinside, hnext⟩ := round_stays ht hw hu
  have descends := w.round_progresses u (next, n) v hround
  rw [run_of_round hround]
  by_cases hn : n = 0
  · exact ⟨next, v, if_pos hn, hinside, hnext⟩
  · rw [if_neg hn]
    exact run_stays ht hnext hinside
termination_by WellFounded.wrap Below.wf (Stmt.heights w.remaining)
decreasing_by exact descends hn

end Resolution

end PlateModel
