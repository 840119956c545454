import PlateModel.Proofs.Expansion.Completeness

/-!
# Slices

A reference with a whole axis is lowered once, when its definition is absorbed, to the cells that
its array has by then. The array may grow later on, through loops that wait for their bounds and
through references that reach further; the rule does not follow. So a whole axis is covered if and
only if the array has its final extent along this axis when the reference is lowered.

* `Expr.Aligned`: an expression with something in the places of its array references.
* `Sliced`: the cells that a reference stands for when it is lowered.
* `lower_aligned`: lowering puts these cells in the places of references.
* `resolve_slices`: so do the rules that resolution returns.
-/

namespace PlateModel

open Compiling

/-! ## Lowered expressions -/

namespace Expr

mutual

/-- The one expression is the other one but for the array references, in the places of which stands
what `P` says. -/
def Aligned (P : String → List Expr → Option Location → Expr → Prop) : Expr → Expr → Prop
  | literal v k, e' => e' = literal v k
  | name x, e' => e' = name x
  | index base is l, e' => ∃ x, base = name x ∧ P x is l e'
  | call f args l, e' => ∃ args', AlignedAll P args args' ∧ e' = call f args' l
  | range a b l, e' => ∃ a' b', Aligned P a a' ∧ Aligned P b b' ∧ e' = range a' b' l
  | stepped a b s l, e' =>
    ∃ a' b' s', Aligned P a a' ∧ Aligned P b b' ∧ Aligned P s s' ∧ e' = stepped a' b' s' l
  | colon l, e' => e' = colon l
  | array xs shape l, e' => ∃ xs', AlignedAll P xs xs' ∧ e' = array xs' shape l

/-- The expressions of two lists are such ones. -/
def AlignedAll (P : String → List Expr → Option Location → Expr → Prop) :
    List Expr → List Expr → Prop
  | [], es' => es' = []
  | e :: es, es' => ∃ e' rest, Aligned P e e' ∧ AlignedAll P es rest ∧ es' = e' :: rest

end

variable {P Q : String → List Expr → Option Location → Expr → Prop}

mutual

theorem Aligned.mono (hPQ : ∀ {x is l e}, P x is l e → Q x is l e) :
    ∀ {e e' : Expr}, Aligned P e e' → Aligned Q e e'
  | literal .., _, h | name _, _, h | colon _, _, h => h
  | index .., _, ⟨x, hx, h⟩ => ⟨x, hx, hPQ h⟩
  | call .., _, ⟨args', h, he⟩ => ⟨args', AlignedAll.mono hPQ h, he⟩
  | range .., _, ⟨a', b', ha, hb, he⟩ => ⟨a', b', ha.mono hPQ, hb.mono hPQ, he⟩
  | stepped .., _, ⟨a', b', s', ha, hb, hs, he⟩ =>
    ⟨a', b', s', ha.mono hPQ, hb.mono hPQ, hs.mono hPQ, he⟩
  | array .., _, ⟨xs', h, he⟩ => ⟨xs', AlignedAll.mono hPQ h, he⟩

theorem AlignedAll.mono (hPQ : ∀ {x is l e}, P x is l e → Q x is l e) :
    ∀ {es es' : List Expr}, AlignedAll P es es' → AlignedAll Q es es'
  | [], _, h => h
  | _ :: _, _, ⟨e', rest, h, hrest, he⟩ => ⟨e', rest, h.mono hPQ, AlignedAll.mono hPQ hrest, he⟩

end

end Expr

/-! ## The cells of a slice -/

/-- Along one axis of a selection every index up to `n` is selected. -/
def CoversTo (axes : List (List Int)) (k n : Nat) : Prop :=
  ∃ axis, axes[k]? = some axis ∧ ∀ i : Int, 1 ≤ i → i ≤ n → i ∈ axis

/-- The expression holds the cells that a reference stood for at some time after `r`, when the
registry was not beyond `r'` yet. Along a whole axis these go as far as the array did at that time;
that is up to its extent in `final` if and only if the array has not grown along the axis since. -/
def Sliced (r r' final : Registry) (array : String) (is : List Expr) (l : Option Location)
    (e : Expr) : Prop :=
  ∃ u v js ref shape, r.Within u ∧ u.reference array js = .ok (ref, v) ∧ v.Within r' ∧
    v.shape? array = some shape ∧ ref = denoted array js shape ∧ e = ref.toExpr l ∧
    ∀ k m, is[k]? = some (.colon m) → ∃ n N limits, shape[k]? = some n ∧
      final.shape? array = some limits ∧ limits[k]? = some N ∧ n ≤ N ∧
      (CoversTo (List.zipWith (fun i n => i.axis n) js shape) k N ↔ n = N)

theorem Sliced.mono {r r₁ r₁' r' final : Registry} (hr : r.Within r₁) (hr' : r₁'.Within r')
    {array : String} {is : List Expr} {l : Option Location} {e : Expr}
    (h : Sliced r₁ r₁' final array is l e) : Sliced r r' final array is l e := by
  obtain ⟨u, v, js, ref, shape, hu, href, hv, h⟩ := h
  exact ⟨u, v, js, ref, shape, hr.trans hu, href, hv.trans hr', h⟩

namespace Definitions

variable {d : Definitions}

/-- A whole axis of a reference is one of its selection. -/
theorem indices_whole : ∀ {is : List Expr} {js : List Index} {r r' : Registry},
    d.indices is r = (.ok js, r') → ∀ {k : Nat} {m : Option Location},
      is[k]? = some (.colon m) → js[k]? = some .full
  | [], _, _, _, _, _, _, hk => nomatch hk
  | .colon _ :: rest, js, r, r', h, k, m, hk => by
    rw [indices] at h
    obtain ⟨js', u, hjs, h⟩ := run_bind_eq_ok.1 h
    cases h
    cases k with
    | zero => rfl
    | succ k => exact indices_whole hjs hk
  | .stepped .. :: _, _, _, _, h, _, _, _ => by
    rw [indices] at h
    cases h
  | .range a b l :: rest, js, r, r', h, k, m, hk => by
    rw [indices] at h
    obtain ⟨a', _, -, h⟩ := run_bind_eq_ok.1 h
    obtain ⟨i, _, -, h⟩ := run_bind_eq_ok.1 h
    obtain ⟨b', _, -, h⟩ := run_bind_eq_ok.1 h
    obtain ⟨j, _, -, h⟩ := run_bind_eq_ok.1 h
    obtain ⟨js', _, hjs, h⟩ := run_bind_eq_ok.1 h
    cases h
    cases k with
    | zero => cases hk
    | succ k => exact indices_whole hjs hk
  | .literal v c :: rest, js, r, r', h, k, m, hk | .name x :: rest, js, r, r', h, k, m, hk
  | .index base is l :: rest, js, r, r', h, k, m, hk
  | .call f args l :: rest, js, r, r', h, k, m, hk
  | .array xs shape l :: rest, js, r, r', h, k, m, hk => by
    rw [indices] at h
    · obtain ⟨e, _, -, h⟩ := run_bind_eq_ok.1 h
      obtain ⟨i, _, -, h⟩ := run_bind_eq_ok.1 h
      obtain ⟨js', _, hjs, h⟩ := run_bind_eq_ok.1 h
      cases h
      cases k with
      | zero => cases hk
      | succ k => exact indices_whole hjs hk
    all_goals
      intros
      contradiction

/-- Up to which extent an axis is covered. -/
theorem coversTo_iff {js : List Index} {shape : List Nat} {k n N : Nat}
    (hjs : js[k]? = some .full) (hn : shape[k]? = some n) (hle : n ≤ N) :
    CoversTo (List.zipWith (fun i n => i.axis n) js shape) k N ↔ n = N := by
  have haxis : (List.zipWith (fun (i : Index) n => i.axis n) js shape)[k]? =
      some (indicesTo n) := by
    rw [List.getElem?_zipWith, hjs, hn]
    rfl
  constructor
  · rintro ⟨axis, h, hcovers⟩
    rw [haxis] at h
    cases h
    by_contra hne
    have hN := mem_indicesTo.1 (hcovers N (by omega) (by omega))
    omega
  · rintro rfl
    exact ⟨_, haxis, fun i h₁ hi => mem_indicesTo.2 ⟨h₁, hi⟩⟩

/-- A reference is lowered to the cells that it stands for at the time. -/
theorem referTo_sliced {r u v final : Registry} {array : String} {is : List Expr} {js : List Index}
    {ref : Reference} (l : Option Location) (hr : r.WellFormed) (his : d.indices is r = (.ok js, u))
    (href : referTo array js u = (.ok ref, v)) (hv : v.Within final) :
    Sliced r v final array is l (ref.toExpr l) := by
  have hru := (indices_grows d is grows_any).of_eq his hr
  simp only [referTo] at href
  split at href
  · next ref' v' h =>
    cases href
    obtain ⟨-, hfits, -, rfl, rfl⟩ := (Registry.reference_eq_ok hru.wellFormed).1 h
    have hshape : (u.grown array js).shape? array = some (u.needed array js) := by
      rw [Registry.shape?_grown, if_pos rfl]
    obtain ⟨limits, hlimits, hle⟩ := hv hshape
    refine ⟨u, _, js, _, _, hru.within, h, .refl _, hshape, rfl, rfl, fun k m hk => ?_⟩
    have hjs := indices_whole his hk
    obtain ⟨hk', -⟩ := List.getElem?_eq_some_iff.1 hjs
    rw [← Registry.length_needed hfits] at hk'
    have hkN : k < limits.length := hle.length_eq ▸ hk'
    have hnN := hle.get hk' hkN
    rw [List.get_eq_getElem, List.get_eq_getElem] at hnN
    have hn := List.getElem?_eq_getElem hk'
    exact ⟨_, _, limits, hn, hlimits, List.getElem?_eq_getElem hkN, hnN, coversTo_iff hjs hn hnN⟩
  · cases href

mutual

/-- Lowering puts the cells in the place of references. -/
theorem lower_aligned (final : Registry) : ∀ {e e' : Expr} {r r' : Registry}, r.WellFormed →
    d.lower e r = (.ok e', r') → r'.Within final → e.Aligned (Sliced r r' final) e'
  | .literal .., _, _, _, _, h, _ | .name _, _, _, _, _, h, _ | .colon _, _, _, _, _, h, _ => by
    rw [lower] at h
    cases h
    rfl
  | .index base is l, e', r, r', hr, h, hle => by
    rw [lower] at h
    obtain ⟨array, _, harray, h⟩ := run_bind_eq_ok.1 h
    obtain ⟨js, u, hjs, h⟩ := run_bind_eq_ok.1 h
    obtain ⟨ref, v, href, h⟩ := run_bind_eq_ok.1 h
    cases h
    cases base with
    | name x =>
      cases harray
      exact ⟨_, rfl, referTo_sliced l hr hjs href hle⟩
    | _ => cases harray
  | .call f args l, e', r, r', hr, h, hle => by
    rw [lower] at h
    obtain ⟨args', _, hargs, h⟩ := run_bind_eq_ok.1 h
    cases h
    exact ⟨args', lowerAll_aligned final hr hargs hle, rfl⟩
  | .range a b l, e', r, r', hr, h, hle => by
    rw [lower] at h
    obtain ⟨a', u, ha, h⟩ := run_bind_eq_ok.1 h
    obtain ⟨b', v, hb, h⟩ := run_bind_eq_ok.1 h
    cases h
    have hu := (lower_grows d a grows_any).of_eq ha hr
    have hv := (lower_grows d b grows_any).of_eq hb hu.wellFormed
    refine ⟨a', b', ?_, ?_, rfl⟩
    · exact (lower_aligned final hr ha (hv.within.trans hle)).mono (.mono (.refl r) hv.within)
    · exact (lower_aligned final hu.wellFormed hb hle).mono (.mono hu.within (.refl _))
  | .stepped a b s l, e', r, r', hr, h, hle => by
    rw [lower] at h
    obtain ⟨s', u, hs, h⟩ := run_bind_eq_ok.1 h
    obtain ⟨a', v, ha, h⟩ := run_bind_eq_ok.1 h
    obtain ⟨b', w, hb, h⟩ := run_bind_eq_ok.1 h
    cases h
    have hu := (lower_grows d s grows_any).of_eq hs hr
    have hv := (lower_grows d a grows_any).of_eq ha hu.wellFormed
    have hw := (lower_grows d b grows_any).of_eq hb hv.wellFormed
    have hvw := hv.within.trans hw.within
    refine ⟨a', b', s', ?_, ?_, ?_, rfl⟩
    · exact (lower_aligned final hu.wellFormed ha (hw.within.trans hle)).mono
        (.mono hu.within hw.within)
    · exact (lower_aligned final hv.wellFormed hb hle).mono
        (.mono (hu.within.trans hv.within) (.refl _))
    · exact (lower_aligned final hr hs (hvw.trans hle)).mono (.mono (.refl r) hvw)
  | .array xs shape l, e', r, r', hr, h, hle => by
    rw [lower] at h
    obtain ⟨xs', _, hxs, h⟩ := run_bind_eq_ok.1 h
    cases h
    exact ⟨xs', lowerAll_aligned final hr hxs hle, rfl⟩

theorem lowerAll_aligned (final : Registry) : ∀ {es es' : List Expr} {r r' : Registry},
    r.WellFormed → d.lowerAll es r = (.ok es', r') → r'.Within final →
      Expr.AlignedAll (Sliced r r' final) es es'
  | [], _, _, _, _, h, _ => by
    rw [lowerAll] at h
    cases h
    rfl
  | e :: es, es', r, r', hr, h, hle => by
    rw [lowerAll] at h
    obtain ⟨e', u, he, h⟩ := run_bind_eq_ok.1 h
    obtain ⟨rest, v, hes, h⟩ := run_bind_eq_ok.1 h
    cases h
    have hu := (lower_grows d e grows_any).of_eq he hr
    have hv := (lowerAll_grows d es grows_any).of_eq hes hu.wellFormed
    refine ⟨e', rest, ?_, ?_, rfl⟩
    · exact (lower_aligned final hr he (hv.within.trans hle)).mono (.mono (.refl r) hv.within)
    · exact (lowerAll_aligned final hu.wellFormed hes hle).mono (.mono hu.within (.refl _))

end

end Definitions

/-! ## Cells that are known beforehand -/

/-- An array reaches as far as some indices. -/
def Registry.Reaches (r : Registry) (array : String) (ks : List Int) : Prop :=
  ∃ shape, r.shape? array = some shape ∧ List.Forall₂ (fun (k : Int) (n : Nat) => k ≤ n) ks shape

theorem Registry.Reaches.mono {r r' : Registry} {array : String} {ks : List Int}
    (h : r.Reaches array ks) (hle : r.Within r') : r'.Reaches array ks := by
  obtain ⟨shape, hshape, hks⟩ := h
  obtain ⟨shape', hshape', hle⟩ := hle hshape
  refine ⟨shape', hshape', ?_⟩
  clear hshape hshape'
  induction hks generalizing shape' with
  | nil => cases hle; exact .nil
  | cons hk _ ih =>
    cases hle with
    | cons hn hrest => exact .cons (by omega) (ih _ hrest)

/-- A definition of the cell of an array at indices that are written as integers. -/
def Stmt.Fixes (array : String) (ks : List Int) (st : Stmt) : Prop :=
  ∃ is l rhs m, st.IsDefinition (.index (.name array) is l) rhs m ∧
    List.Forall₂ (fun e k => ∃ c, e = .literal (.int k) c) is ks

section Known

variable {array : String} {ks : List Int} {st : Stmt} {s t : State}

theorem indices_fixed (d : Definitions) (r : Registry) {is : List Expr}
    (h : List.Forall₂ (fun e k => ∃ c, e = .literal (.int k) c) is ks) :
    d.indices is r = (.ok (ks.map .position), r) := by
  induction h with
  | nil => rw [Definitions.indices]; rfl
  | cons hk _ ih =>
    obtain ⟨c, rfl⟩ := hk
    rw [Definitions.indices, Definitions.lower]
    · refine run_bind_eq_ok.2 ⟨_, r, rfl, run_bind_eq_ok.2 ⟨_, r, rfl, ?_⟩⟩
      exact run_bind_eq_ok.2 ⟨_, r, ih, rfl⟩
    all_goals
      intros
      contradiction

/-- An array that has been made to reach a position does so. -/
theorem reaches_grown {r : Registry} (hfits : r.RankFits array (ks.map .position)) :
    (r.grown array (ks.map .position)).Reaches array ks := by
  refine ⟨_, by rw [Registry.shape?_grown, if_pos rfl], ?_⟩
  have hextent := Registry.extent_needed (Registry.length_needed hfits)
  rw [List.forall₂_map_left_iff] at hextent
  refine hextent.imp fun k n hn => ?_
  simp only [Index.extent] at hn
  omega

/-- The cell on a left-hand side is known from then on. -/
theorem registerTarget_reaches (hst : st.Fixes array ks) (hs : s.registry.WellFormed)
    (h : registerTarget st s = (.ok (), t)) : t.registry.Reaches array ks := by
  obtain ⟨is, l, rhs, m, hdefinition, his⟩ := hst
  have heq : registerTarget st = (do
      let _ ← unlessUnresolved (refer (·.symbolic (.index (.name array) is l)))
      return ()) := by
    rcases hdefinition with rfl | rfl <;> rfl
  rw [heq] at h
  obtain ⟨result, u, h, hu⟩ := run_bind_eq_ok.1 h
  obtain ⟨-, rfl⟩ := run_pure_eq_ok.1 hu
  have hsymbolic : s.toDefinitions.symbolic (.index (.name array) is l) s.registry =
      (Sum.inr <$> referTo array (ks.map .position)) s.registry := by
    rw [Definitions.symbolic]
    exact (run_bind_of_ok rfl).trans (run_bind_of_ok (indices_fixed _ _ his))
  cases result with
  | ok y =>
    obtain ⟨r, hr, rfl⟩ := refer_eq.1 (unlessUnresolved_eq_ok.1 h)
    rw [hsymbolic] at hr
    obtain ⟨ref, r', href, hr⟩ := run_bind_eq_ok.1 hr
    cases hr
    simp only [referTo] at href
    split at href
    · next h =>
      cases href
      obtain ⟨-, hfits, -, rfl, -⟩ := (Registry.reference_eq_ok hs).1 h
      exact reaches_grown hfits
    · cases href
  | error e =>
    obtain ⟨h, he⟩ := unlessUnresolved_eq_unresolved.1 h
    obtain ⟨r, hr, -⟩ := refer_eq.1 h
    rw [hsymbolic] at hr
    rcases run_bind_eq_error.1 hr with hr | ⟨_, _, _, hr⟩
    · simp only [referTo] at hr
      split at hr
      · cases hr
      · next h =>
        cases hr
        rw [Registry.isUnresolvedIndex_of_reference h] at he
        cases he
    · cases hr

theorem forM_registerTarget_reaches (hfix : st.Fixes array ks) : ∀ {ss : List Stmt} {s t : State},
    st ∈ ss → s.registry.WellFormed → ss.forM registerTarget s = (.ok (), t) →
      t.registry.Reaches array ks
  | st' :: ss, s, t, hst, hs, h => by
    obtain ⟨⟨⟩, u, hu, h⟩ := run_bind_eq_ok.1 h
    have hsu := ((registerTarget_refers (Stmt.refersIn_any st')).of_eq hu hs).1
    have hut := (Refers.forM fun st _ =>
      registerTarget_refers (Stmt.refersIn_any st)).grows.of_eq h hsu.wellFormed
    rcases List.mem_cons.1 hst with rfl | hst
    · exact (registerTarget_reaches hfix hs hu).mono hut.registry.within
    · exact forM_registerTarget_reaches hfix hst hsu.wellFormed h

end Known

/-! ## Runs -/

namespace Resolution

variable {w w' : Resolution} {n : Nat} {s s' : State}

/-- Definitions are left where loops are unrolled. -/
theorem mem_unrollAll {st : Stmt} (hflat : st.isFlat) : ∀ {ss ss' : List Stmt} {n : Nat}
    {s t : State}, st ∈ ss → unrollAll [] ss s = (.ok (ss', n), t) → st ∈ ss'
  | st' :: ss, ss', n, s, t, hst, h => by
    obtain ⟨us, j, u, vs, k, hu, hv, rfl, -⟩ := unrollAll_cons_eq_ok.1 h
    rcases List.mem_cons.1 hst with rfl | hst
    · refine List.mem_append_left _ ?_
      cases st with
      | assign | sample =>
        rw [unroll] at hu
        · cases hu
          rw [Stmt.substitute_nil]
          exact List.mem_cons_self ..
        · intros
          contradiction
      | _ => cases hflat
    · exact List.mem_append_right _ (mem_unrollAll hflat hst hv)

/-- Definitions are left where conditionals are decided. -/
theorem mem_decideAll {st : Stmt} (hflat : st.isFlat) : ∀ {ss ss' : List Stmt} {n : Nat}
    {s t : State}, st ∈ ss → decideAll ss s = (.ok (ss', n), t) → st ∈ ss'
  | st' :: ss, ss', n, s, t, hst, h => by
    obtain ⟨us, j, u, vs, k, hu, hv, rfl, -⟩ := decideAll_cons_eq_ok.1 h
    rcases List.mem_cons.1 hst with rfl | hst
    · refine List.mem_append_left _ ?_
      cases st with
      | assign | sample =>
        rw [decideIn] at hu
        · cases hu
          exact List.mem_cons_self ..
        · intros
          contradiction
      | _ => cases hflat
    · exact List.mem_append_right _ (mem_decideAll hflat hst hv)

/-- Between two states the left-hand sides of all definitions among some statements have been
registered, and only then has anything been absorbed. -/
def Registers (w w' : Resolution) (s s' : State) : Prop :=
  ∃ (left : List Stmt) (u v : State), (∀ st ∈ w.remaining, st.isFlat → st ∈ left) ∧
    s.Grows (fun _ => True) u ∧ left.forM registerTarget u = (.ok (), v) ∧
    v.Grows (fun _ => True) s' ∧
    ∀ st ∈ w'.absorbed, st ∈ w.absorbed ∨ ∃ new, Between absorbLogical v s' st (.absorbed new)

/-- Before a run absorbs anything it registers the left-hand sides. -/
theorem Rounds.registers (h : Rounds w s w' s') (hs : s.registry.WellFormed) :
    Registers w w' s s' := by
  -- the first step that absorbs registers the left-hand sides, and the others come after it
  have absorbing {w w₁ w' : Resolution} {n : Nat} {s s₁ s' : State} (hs : s.registry.WellFormed)
      (h : w.absorbDefinitions s = (.ok (w₁, n), s₁)) (hrest : s₁.Grows (fun _ => True) s')
      (habsorbed : ∀ st ∈ w'.absorbed, st ∈ w₁.absorbed ∨
        ∃ new, Between absorbLogical s₁ s' st (.absorbed new)) : Registers w w' s s' := by
    obtain ⟨v, results, hv, hresults, -, rfl⟩ := absorbDefinitions_eq_ok.1 h
    have hsv := (absorbDefinitions_refers (Stmt.refersInAll_any _)).grows.of_eq hv hs
    have hvs₁ := grows_of_attempt absorbLogical_grows_any hresults hsv.registry.wellFormed
    refine ⟨w.remaining, s, v, fun st hst _ => hst, .refl hs, hv, hvs₁.trans hrest, ?_⟩
    intro st hst
    rcases habsorbed st hst with hst | ⟨new, hst⟩
    · refine (List.mem_append.1 hst).imp id fun hst => ?_
      obtain ⟨⟨st', a⟩, hr, rfl⟩ := List.mem_map.1 hst
      obtain ⟨hr, hleft⟩ := List.mem_filter.1 hr
      have hbetween := between_of_attempt absorbLogical_grows_any hresults hsv.registry.wellFormed
        _ hr
      cases a with
      | absorbed new => exact ⟨new, hbetween.mono (.refl hsv.registry.wellFormed) hrest⟩
      | _ => cases hleft
    · exact .inr ⟨new, hst.mono hvs₁ (.refl hrest.registry.wellFormed)⟩
  induction h with
  | @step w w₁ w' n s s₁ s' h rest ih =>
    have hss₁ := h.grows_any hs
    have hs₁ := hss₁.registry.wellFormed
    cases h with
    | unroll h =>
      obtain ⟨ss', hss', rfl⟩ := unrollLoops_eq_ok.1 h
      obtain ⟨ss, u, v, hss, hu, hv, hvs', habsorbed⟩ := ih hs₁
      exact ⟨ss, u, v, fun st hst hflat => hss st (mem_unrollAll hflat hst hss') hflat,
        hss₁.trans hu, hv, hvs', habsorbed⟩
    | decide h =>
      obtain ⟨ss', hss', rfl⟩ := decideConditionals_eq_ok.1 h
      obtain ⟨ss, u, v, hss, hu, hv, hvs', habsorbed⟩ := ih hs₁
      exact ⟨ss, u, v, fun st hst hflat => hss st (mem_decideAll hflat hst hss') hflat,
        hss₁.trans hu, hv, hvs', habsorbed⟩
    | absorb h => exact absorbing hs h (rest.grows_any hs₁) (rest.absorbed hs₁)
  | @last w w₁ w₂ w' s s₁ s₂ s' hunroll hdecide habsorb =>
    obtain rfl := unrollLoops_eq_zero hunroll
    obtain rfl := decideConditionals_eq_zero hdecide
    have h₁ := (Step.unroll hunroll).grows_any hs
    have h₂ := h₁.trans ((Step.decide hdecide).grows_any h₁.registry.wellFormed)
    have h₃ := (Step.absorb habsorb).grows_any h₂.registry.wellFormed
    obtain ⟨ss, u, v, hss, hu, hrest⟩ := absorbing h₂.registry.wellFormed habsorb
      (.refl h₃.registry.wellFormed) fun st hst => .inl hst
    exact ⟨ss, u, v, hss, h₂.trans hu, hrest⟩

end Resolution

/-- Absorbing a definition lowers its slices once and for all. -/
theorem Absorbs.sliced {st : Stmt} {s s' : State} {new : Bool} {final : Registry}
    (h : Absorbs st s (.absorbed new) s') (hs : s.registry.WellFormed)
    (hle : s'.registry.Within final) : ∃ lhs rhs l x e v, st.IsDefinition lhs rhs l ∧
      lowered lhs rhs l s = (.ok (.ok (x, e)), v) ∧ v.registry = s'.registry ∧
      s'.Records st x e ∧ rhs.Aligned (Sliced s.registry s'.registry final) e := by
  cases h with
  | @absorbed lhs rhs e l x v _ _ hst h hregistry hrecords =>
    refine ⟨lhs, rhs, l, x, e, v, hst, h, hregistry.symm, hrecords, ?_⟩
    obtain ⟨y, r, r', hy, -, -, he, rfl⟩ := lowered_eq_ok.1 h
    have hr := (Definitions.symbolic_grows _ lhs Definitions.grows_any).of_eq hy hs
    rw [hregistry] at hle ⊢
    exact (Definitions.lower_aligned final hr.wellFormed he hle).mono
      (.mono hr.within (.refl _))

section Resolve

variable {p q : Program} {tally : Tally} {s t : State}

/-- Every definition is lowered in one state of the run, in which the literals of its slices are
those of its rule for good: along a whole axis they reach the final extent of the array if and only
if the array does so when they are lowered. By then every array reaches all its cells that
definitions outside of loops and conditionals define by their numbers. -/
theorem resolve_slices {data : List (String × Datum)}
    (hs : State.seed data .empty = (.ok (), s)) (h : p.resolve s = (.ok (q, tally), t)) :
    ∀ st ∈ q.statements, ∃ lhs rhs l u v x e, st.IsDefinition lhs rhs l ∧ s.Within u ∧
      lowered lhs rhs l u = (.ok (.ok (x, e)), v) ∧ v.registry.Within t.registry ∧
      t.Records st x e ∧ rhs.Aligned (Sliced u.registry v.registry t.registry) e ∧
      ∀ st' ∈ p.statements, ∀ array ks, st'.Fixes array ks → u.registry.Reaches array ks := by
  have hs := (State.seeded_of_seed hs).wellFormed
  obtain ⟨w, s', results, hrounds, hresults, -, hq⟩ := Program.resolve_eq_ok h
  obtain ⟨left, a, b, hleft, hsa, hab, hbs', habsorbed⟩ := hrounds.registers hs
  have hb := (Refers.forM fun st _ =>
    registerTarget_refers (Stmt.refersIn_any st)).grows.of_eq hab hsa.registry.wellFormed
  have hs't := Resolution.grows_of_attempt Resolution.absorbStochastic_grows_any hresults
    hbs'.registry.wellFormed
  have known : ∀ st' ∈ p.statements, ∀ array ks, st'.Fixes array ks →
      b.registry.Reaches array ks := fun st' hst' array ks hfix => by
    have hflat : st'.isFlat := by
      obtain ⟨is, l, rhs, m, hdefinition, -⟩ := hfix
      rcases hdefinition with rfl | rfl <;> rfl
    exact forM_registerTarget_reaches hfix (hleft st' hst' hflat) hsa.registry.wellFormed hab
  -- whatever is absorbed after the registration is lowered in some such state
  have lowering {st : Stmt} {u v : State} {new : Bool} (hu : b.Grows (fun _ => True) u)
      (habsorbs : Absorbs st u (.absorbed new) v) (hvt : v.Grows (fun _ => True) t) :
      ∃ lhs rhs l u v x e, st.IsDefinition lhs rhs l ∧ s.Within u ∧
        lowered lhs rhs l u = (.ok (.ok (x, e)), v) ∧ v.registry.Within t.registry ∧
        t.Records st x e ∧ rhs.Aligned (Sliced u.registry v.registry t.registry) e ∧
        ∀ st' ∈ p.statements, ∀ array ks, st'.Fixes array ks → u.registry.Reaches array ks := by
    obtain ⟨lhs, rhs, l, x, e, v', hst, hlowered, hv', hrecords, haligned⟩ :=
      habsorbs.sliced hu.registry.wellFormed hvt.registry.within
    refine ⟨lhs, rhs, l, u, v', x, e, hst, (hsa.within.trans hb.within).trans hu.within, hlowered,
      hv' ▸ hvt.registry.within, hrecords.mono hvt.within, hv'.symm ▸ haligned,
      fun st' hst' array ks hfix => ?_⟩
    exact (known st' hst' array ks hfix).mono hu.registry.within
  intro st hst
  rw [hq] at hst
  rcases List.mem_append.1 hst with hst | hst
  · rcases habsorbed st hst with hst | ⟨new, u, v, hu, habsorb, -, hv⟩
    · cases hst
    · exact lowering hu (absorbLogical_absorbs habsorb) (hv.trans hs't)
  · obtain ⟨⟨st, a⟩, hr, rfl⟩ := List.mem_map.1 hst
    obtain ⟨hr, hnot⟩ := List.mem_filter.1 hr
    obtain ⟨u, v, hu, habsorb, -, hv⟩ := Resolution.between_of_attempt
      Resolution.absorbStochastic_grows_any hresults hbs'.registry.wellFormed _ hr
    cases a with
    | absorbed new => exact lowering (hbs'.trans hu) (absorbStochastic_absorbs habsorb) hv
    | _ => cases hnot

/-- A bound, the sum of an array, and a loop that fills the array up to the bound. -/
def hasty : Program :=
  ⟨[.assign (.name "n") (.literal (.int 2) 0) none,
    .assign (.name "s") (.call "sum" [.index (.name "x") [.colon none] none] none) none,
    .loop "i" (.literal (.int 1) 0) (.name "n")
      [.assign (.index (.name "x") [.name "i"] none) (.name "i") none] none], none⟩

/-- The definitions of `hasty` before its loop. -/
def hastyStart : List Stmt :=
  [.assign (.name "n") (.literal (.int 2) 0) none,
    .assign (.name "s") (.call "sum" [.index (.name "x") [.colon none] none] none) none]

/-- The sum is recorded before the loop knows its bound. -/
def hastyMoment : State :=
  { State.empty with
    registry := ⟨⟨[("x", ⟨[1], [⟨"x", [1]⟩], 0⟩)]⟩⟩
    logical := ⟨[("n", .literal (.int 2) 0),
      ("s", .call "sum" [.array [.name "x[1]"] [1] none] none)]⟩ }

/-- What `hasty` comes to: the sum of one cell, and an array of two. -/
def hastyState : State :=
  { countedState with
    logical := ⟨[("n", .literal (.int 2) 0),
      ("s", .call "sum" [.array [.name "x[1]"] [1] none] none),
      ("x[1]", .literal (.int 1) 0), ("x[2]", .literal (.int 2) 0)]⟩ }

theorem resolve_hasty :
    hasty.resolve .empty =
      (.ok ({ hasty with statements := hastyStart ++ counted }, ⟨1, 0, 4, 0⟩), hastyState) := by
  have habsorb : (Resolution.start hasty.statements).round .empty =
      (.ok (⟨hasty.statements.drop 2, hastyStart, [], ⟨0, 0, 2, 0⟩⟩, 2), hastyMoment) := rfl
  have hunroll : (⟨hasty.statements.drop 2, hastyStart, [], ⟨0, 0, 2, 0⟩⟩ : Resolution).round
      hastyMoment = (.ok (⟨counted, hastyStart, [], ⟨1, 0, 2, 0⟩⟩, 1), hastyMoment) := rfl
  have hfill : (⟨counted, hastyStart, [], ⟨1, 0, 2, 0⟩⟩ : Resolution).round hastyMoment =
      (.ok (⟨[], hastyStart ++ counted, [], ⟨1, 0, 4, 0⟩⟩, 2), hastyState) := rfl
  have hdone : (⟨[], hastyStart ++ counted, [], ⟨1, 0, 4, 0⟩⟩ : Resolution).round hastyState =
      (.ok (⟨[], hastyStart ++ counted, [], ⟨1, 0, 4, 0⟩⟩, 0), hastyState) := rfl
  have hrun : (Resolution.start hasty.statements).run .empty =
      (.ok ⟨[], hastyStart ++ counted, [], ⟨1, 0, 4, 0⟩⟩, hastyState) := by
    rw [Resolution.run_of_round habsorb, if_neg (by decide), Resolution.run_of_round hunroll,
      if_neg (by decide), Resolution.run_of_round hfill, if_neg (by decide),
      Resolution.run_of_round hdone, if_pos rfl]
  rw [Program.resolve, run_bind_of_ok hrun]
  rfl

theorem resolve_slices_hasty : State.seed [] .empty = (.ok (), .empty) ∧
    ∀ st ∈ hastyStart ++ counted, ∃ lhs rhs l u v x e, st.IsDefinition lhs rhs l ∧
      State.empty.Within u ∧ lowered lhs rhs l u = (.ok (.ok (x, e)), v) ∧
      v.registry.Within hastyState.registry ∧ hastyState.Records st x e ∧
      rhs.Aligned (Sliced u.registry v.registry hastyState.registry) e ∧
      ∀ st' ∈ hasty.statements, ∀ array ks, st'.Fixes array ks → u.registry.Reaches array ks :=
  ⟨rfl, resolve_slices (show State.seed [] .empty = (.ok (), .empty) from rfl) resolve_hasty⟩

/-- A slice of an array holds every cell along its whole axes. -/
def Whole (final : Registry) (array : String) (is : List Expr) (l : Option Location) (e : Expr) :
    Prop :=
  ∀ (k : Nat) m limits N, is[k]? = some (.colon m) → final.shape? array = some limits →
    limits[k]? = some N → ∃ shape cells, e = (Reference.block shape cells).toExpr l ∧
      ∀ i : Int, 1 ≤ i → i ≤ N → ∃ c ∈ cells, c.indices[k]? = some i

/-- A loop that waits for its bound lets an array grow after a sum over it has been recorded. -/
theorem resolve_leaves_slice_short :
    ¬ ∀ (data : List (String × Datum)) (s t : State) (p q : Program) (tally : Tally),
      State.seed data .empty = (.ok (), s) → p.resolve s = (.ok (q, tally), t) →
      ∀ st ∈ q.statements, ∀ lhs rhs l x e, st.IsDefinition lhs rhs l → t.Denotes lhs x →
        t.logical.get? x.name = some e → rhs.Aligned (Whole t.registry) e := by
  intro claim
  obtain ⟨args, ⟨e, _, ⟨x, hx, hwhole⟩, rfl, rfl⟩, he⟩ :=
    claim [] .empty hastyState hasty _ _ rfl resolve_hasty _ (.tail _ (.head _)) _ _ _
      (.scalar "s") _ (.inl rfl) ⟨.inl (.scalar "s"), rfl, rfl⟩ rfl
  cases hx
  cases he
  obtain ⟨shape, cells, hcells, hcovers⟩ := hwhole 0 none [2] 2 rfl rfl rfl
  obtain ⟨c, hc, hone⟩ := hcovers 1 (by decide) (by decide)
  obtain ⟨c', hc', htwo⟩ := hcovers 2 (by decide) (by decide)
  -- the literal has one cell only, which would have to be both the first and the second one
  have hlength : cells.length = 1 := by
    simp only [Reference.toExpr, Expr.array.injEq] at hcells
    rw [← List.length_map, ← hcells.1]
    rfl
  obtain ⟨only, rfl⟩ := List.length_eq_one_iff.1 hlength
  rw [List.mem_singleton] at hc hc'
  rw [hc] at hone
  rw [hc', hone] at htwo
  cases htwo

end Resolve

end PlateModel
