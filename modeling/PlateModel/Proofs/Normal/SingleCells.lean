import PlateModel.Normal.Links
import PlateModel.Normal.Validate
import PlateModel.Proofs.Computation
import PlateModel.Proofs.Model.References

/-!
# Normalizing brings no slices

Validation, the moving of link functions and the expansion of special functions rewrite a program
before it is resolved. In a program without slices every reference is to a single cell, and so it is
after each of them. Only `x[]`, which validation writes as `x[:]`, is a slice that is not seen by
its indices.

* `Expr.NoSlices`, `Program.NoSlices`: every reference has indices, each of one position.
* `singleCells_of_validate`, `singleCells_of_unlink`, `singleCells_of_expandSpecial`: what the
  rewritings of a program keep.
-/

namespace PlateModel

namespace Expr

variable {e e' : Expr} {es es' : List Expr} {samples : Samples}

/-- Every reference has indices, each of which stands for one position. -/
def NoSlices (e : Expr) : Prop := ∀ r ∈ e.references, r.2 ≠ [] ∧ ∀ i ∈ r.2, i.isPoint

instance : DecidablePred NoSlices := fun e =>
  inferInstanceAs (Decidable (∀ r ∈ e.references, r.2 ≠ [] ∧ ∀ i ∈ r.2, i.isPoint))

/-! ## Parts -/

section Parts

variable {f : String} {base a b s : Expr} {l : Option Location} {shape : List Int}

theorem forall_referencesOfAll {p : Expr × List Expr → Prop} :
    (∀ r ∈ referencesOfAll es, p r) ↔ ∀ e ∈ es, ∀ r ∈ e.references, p r := by
  simp only [mem_referencesOfAll]
  exact ⟨fun h e he r hr => h r ⟨e, he, hr⟩, fun h r ⟨e, he, hr⟩ => h e he r hr⟩

theorem singleCells_index : (index base es l).SingleCells ↔
    (∀ i ∈ es, i.isPoint) ∧ ∀ i ∈ es, i.SingleCells := by
  rw [SingleCells, references, List.forall_mem_cons, forall_referencesOfAll]
  rfl

theorem noSlices_index : (index base es l).NoSlices ↔
    (es ≠ [] ∧ ∀ i ∈ es, i.isPoint) ∧ ∀ i ∈ es, i.NoSlices := by
  rw [NoSlices, references, List.forall_mem_cons, forall_referencesOfAll]
  rfl

theorem singleCells_call : (call f es l).SingleCells ↔ ∀ e ∈ es, e.SingleCells :=
  forall_referencesOfAll

theorem singleCells_array : (array es shape l).SingleCells ↔ ∀ e ∈ es, e.SingleCells :=
  forall_referencesOfAll

theorem singleCells_range : (range a b l).SingleCells ↔ a.SingleCells ∧ b.SingleCells :=
  List.forall_mem_append

theorem singleCells_stepped : (stepped a b s l).SingleCells ↔
    a.SingleCells ∧ b.SingleCells ∧ s.SingleCells := by
  rw [SingleCells, references, List.forall_mem_append, List.forall_mem_append]
  rfl

end Parts

/-! ## Validation -/

theorem validate_call_eq_ok {f : String} {args : List Expr} {l : Option Location}
    (h : (call f args l).validate = .ok e') :
    ∃ args', validateAll args = .ok args' ∧ e' = call f args' l := by
  rw [validate] at h
  split at h
  · cases h
  · obtain ⟨args', hargs, h⟩ := bind_eq_ok.1 h
    cases h
    exact ⟨args', hargs, rfl⟩

/-- Validation leaves it to each index whether it stands for one position. -/
theorem isPoint_of_validate (h : e.validate = .ok e') : e'.isPoint = e.isPoint := by
  cases e with
  | literal | name | colon => cases h; rfl
  | index base is l =>
    cases is with
    | nil => cases h; rfl
    | cons i is =>
      obtain ⟨_, -, h⟩ := bind_eq_ok.1 h
      obtain ⟨_, -, h⟩ := bind_eq_ok.1 h
      cases h
      rfl
  | call f args l =>
    obtain ⟨_, -, rfl⟩ := validate_call_eq_ok h
    rfl
  | range a b l =>
    obtain ⟨_, -, h⟩ := bind_eq_ok.1 h
    obtain ⟨_, -, h⟩ := bind_eq_ok.1 h
    cases h
    rfl
  | stepped => cases h
  | array xs shape l =>
    obtain ⟨_, -, h⟩ := bind_eq_ok.1 h
    cases h
    rfl

theorem isPoint_of_validateAll : ∀ {es es' : List Expr}, validateAll es = .ok es' →
    (∀ e ∈ es, e.isPoint) → ∀ e ∈ es', e.isPoint
  | [], _, h, _ => by cases h; exact nofun
  | e :: es, _, h, hs => by
    obtain ⟨e', he, h⟩ := bind_eq_ok.1 h
    obtain ⟨es', hes, h⟩ := bind_eq_ok.1 h
    cases h
    obtain ⟨hse, hses⟩ := List.forall_mem_cons.1 hs
    exact List.forall_mem_cons.2
      ⟨(isPoint_of_validate he).trans hse, isPoint_of_validateAll hes hses⟩

mutual

theorem singleCells_of_validate : ∀ {e e' : Expr}, e.validate = .ok e' → e.NoSlices →
    e'.SingleCells
  | literal .., _, h, _ | name _, _, h, _ | colon _, _, h, _ => by cases h; exact nofun
  | index base [] l, _, _, hs => absurd rfl (noSlices_index.1 hs).1.1
  | index base (i :: is) l, e', h, hs => by
    obtain ⟨_, -, h⟩ := bind_eq_ok.1 h
    obtain ⟨js, hjs, h⟩ := bind_eq_ok.1 h
    cases h
    obtain ⟨⟨-, hpoints⟩, his⟩ := noSlices_index.1 hs
    exact singleCells_index.2
      ⟨fun j hj => isPoint_of_validateAll hjs hpoints j hj, singleCells_of_validateAll hjs his⟩
  | call f args l, e', h, hs => by
    obtain ⟨args', hargs, rfl⟩ := validate_call_eq_ok h
    exact singleCells_call.2 (singleCells_of_validateAll hargs (forall_referencesOfAll.1 hs))
  | range a b l, e', h, hs => by
    obtain ⟨a', ha, h⟩ := bind_eq_ok.1 h
    obtain ⟨b', hb, h⟩ := bind_eq_ok.1 h
    cases h
    obtain ⟨hsa, hsb⟩ := List.forall_mem_append.1 hs
    exact singleCells_range.2 ⟨singleCells_of_validate ha hsa, singleCells_of_validate hb hsb⟩
  | stepped .., _, h, _ => by cases h
  | array xs shape l, e', h, hs => by
    obtain ⟨xs', hxs, h⟩ := bind_eq_ok.1 h
    cases h
    exact singleCells_array.2 (singleCells_of_validateAll hxs (forall_referencesOfAll.1 hs))

theorem singleCells_of_validateAll : ∀ {es es' : List Expr}, validateAll es = .ok es' →
    (∀ e ∈ es, e.NoSlices) → ∀ e ∈ es', e.SingleCells
  | [], _, h, _ => by cases h; exact nofun
  | e :: es, _, h, hs => by
    obtain ⟨e', he, h⟩ := bind_eq_ok.1 h
    obtain ⟨es', hes, h⟩ := bind_eq_ok.1 h
    cases h
    obtain ⟨hse, hses⟩ := List.forall_mem_cons.1 hs
    exact List.forall_mem_cons.2
      ⟨singleCells_of_validate he hse, singleCells_of_validateAll hes hses⟩

end

theorem singleCells_of_validateTarget {l : Option Location} (h : e.validateTarget l = .ok e')
    (hs : e.NoSlices) : e'.SingleCells := by
  cases e with
  | name x => cases h; exact nofun
  | index base is k =>
    cases is with
    | nil => cases h
    | cons i is => exact singleCells_of_validate h hs
  | call f args k => rcases args with _ | ⟨_, _ | ⟨_, _⟩⟩ <;> cases h
  | _ => cases h

theorem singleCells_of_validateLinkedTarget {l : Option Location}
    (h : e.validateLinkedTarget l = .ok e') (hs : e.NoSlices) : e'.SingleCells := by
  unfold validateLinkedTarget at h
  split at h
  · obtain ⟨lhs, hlhs, h⟩ := bind_eq_ok.1 h
    cases h
    have hsingle := singleCells_of_validateTarget hlhs
      (forall_referencesOfAll.1 hs _ (List.mem_singleton_self _))
    exact singleCells_call.2 (List.forall_mem_singleton.2 hsingle)
  · exact singleCells_of_validateTarget h hs

/-! ## Special functions -/

theorem singleCells_of_expansion {f : SpecialFunction} {distribution value : Expr}
    {l : Option Location} (hd : distribution.SingleCells) (hv : value.SingleCells) :
    (f.expansion distribution value l).SingleCells := by
  have hargs : ∀ e ∈ [distribution, value], e.SingleCells := by simpa using ⟨hd, hv⟩
  cases f with
  | cumulative | density => exact singleCells_call.2 hargs
  | deviance =>
    have hfactor : (Expr.ofNumber (.int (-2))).SingleCells := nofun
    exact singleCells_call.2 (List.forall_mem_cons.2
      ⟨hfactor, List.forall_mem_singleton.2 (singleCells_call.2 hargs)⟩)

/-- A distribution that is looked up is the right-hand side of a sample. -/
theorem mem_of_distribution {f : SpecialFunction} {x d : Expr} {l : Option Location}
    (h : samples.distribution f x l = .ok d) : ∃ lhs, (lhs, d) ∈ samples := by
  unfold Samples.distribution at h
  split at h
  · next lhs rhs hfilter =>
    cases h
    exact ⟨lhs, (List.mem_filter.1 (hfilter ▸ List.mem_singleton_self _)).1⟩
  · cases h
  · cases h

/-- The distributions of some samples refer to single cells. -/
def SampledCells (samples : Samples) : Prop := ∀ x ∈ samples, x.2.SingleCells

/-- Expanding a call makes a call. -/
theorem call_of_expandCall {f : String} {args : List Expr} {l : Option Location}
    (h : expandCall samples f args l = .ok e) (hsamples : SampledCells samples)
    (hargs : ∀ e ∈ args, e.SingleCells) : e.isPoint ∧ e.SingleCells := by
  unfold expandCall at h
  split at h
  · cases h
    exact ⟨rfl, singleCells_call.2 hargs⟩
  · next g x value _ =>
    obtain ⟨d, hd, h⟩ := bind_eq_ok.1 h
    cases h
    obtain ⟨lhs, hmem⟩ := mem_of_distribution hd
    refine ⟨?_, singleCells_of_expansion (hsamples _ hmem) (hargs value (by simp))⟩
    cases g <;> rfl
  · cases h

mutual

theorem singleCells_of_expandSpecial (hsamples : SampledCells samples) : ∀ {e e' : Expr},
    e.expandSpecial samples = .ok e' → e.SingleCells →
    e'.SingleCells ∧ (e.isPoint → e'.isPoint)
  | literal .., _, h, _ | name _, _, h, _ | colon _, _, h, _ => by
    cases h
    exact ⟨nofun, id⟩
  | index base is l, e', h, hs => by
    obtain ⟨_, -, h⟩ := bind_eq_ok.1 h
    obtain ⟨js, hjs, h⟩ := bind_eq_ok.1 h
    cases h
    obtain ⟨hpoints, his⟩ := singleCells_index.1 hs
    obtain ⟨hjs, hpoints'⟩ := singleCells_of_expandSpecialAll hsamples hjs his
    exact ⟨singleCells_index.2 ⟨hpoints' hpoints, hjs⟩, id⟩
  | call f args l, e', h, hs => by
    obtain ⟨args', hargs, h⟩ := bind_eq_ok.1 h
    obtain ⟨hpoint, hsingle⟩ := call_of_expandCall h hsamples
      (singleCells_of_expandSpecialAll hsamples hargs (singleCells_call.1 hs)).1
    exact ⟨hsingle, fun _ => hpoint⟩
  | range a b l, e', h, hs => by
    obtain ⟨a', ha, h⟩ := bind_eq_ok.1 h
    obtain ⟨b', hb, h⟩ := bind_eq_ok.1 h
    cases h
    obtain ⟨hsa, hsb⟩ := singleCells_range.1 hs
    exact ⟨singleCells_range.2 ⟨(singleCells_of_expandSpecial hsamples ha hsa).1,
      (singleCells_of_expandSpecial hsamples hb hsb).1⟩, id⟩
  | stepped a b s l, e', h, hs => by
    obtain ⟨s', hs', h⟩ := bind_eq_ok.1 h
    obtain ⟨a', ha, h⟩ := bind_eq_ok.1 h
    obtain ⟨b', hb, h⟩ := bind_eq_ok.1 h
    cases h
    obtain ⟨hsa, hsb, hss⟩ := singleCells_stepped.1 hs
    exact ⟨singleCells_stepped.2 ⟨(singleCells_of_expandSpecial hsamples ha hsa).1,
      (singleCells_of_expandSpecial hsamples hb hsb).1,
      (singleCells_of_expandSpecial hsamples hs' hss).1⟩, id⟩
  | array xs shape l, e', h, hs => by
    obtain ⟨xs', hxs, h⟩ := bind_eq_ok.1 h
    cases h
    exact ⟨singleCells_array.2
      (singleCells_of_expandSpecialAll hsamples hxs (singleCells_array.1 hs)).1, id⟩

theorem singleCells_of_expandSpecialAll (hsamples : SampledCells samples) :
    ∀ {es es' : List Expr}, expandSpecialAll samples es = .ok es' → (∀ e ∈ es, e.SingleCells) →
    (∀ e ∈ es', e.SingleCells) ∧ ((∀ e ∈ es, e.isPoint) → ∀ e ∈ es', e.isPoint)
  | [], _, h, _ => by cases h; exact ⟨nofun, fun _ => nofun⟩
  | e :: es, _, h, hs => by
    obtain ⟨e', he, h⟩ := bind_eq_ok.1 h
    obtain ⟨es', hes, h⟩ := bind_eq_ok.1 h
    cases h
    simp only [List.forall_mem_cons] at hs ⊢
    obtain ⟨he', hpoint⟩ := singleCells_of_expandSpecial hsamples he hs.1
    obtain ⟨hes', hpoints⟩ := singleCells_of_expandSpecialAll hsamples hes hs.2
    exact ⟨⟨he', hes'⟩, fun h => ⟨hpoint h.1, hpoints h.2⟩⟩

end

end Expr

/-! ## Statements -/

namespace Stmt

/-- Every reference of some statements is to a single cell. -/
abbrev SingleCellsAll : List Stmt → Prop := EveryOfAll Expr.SingleCells Expr.SingleCells

mutual

theorem singleCells_of_validate : ∀ {s s' : Stmt}, s.validate = .ok s' →
    s.Every Expr.NoSlices Expr.NoSlices → s'.Every Expr.SingleCells Expr.SingleCells
  | assign lhs rhs l, _, h, hs => by
    obtain ⟨lhs', hlhs, h⟩ := bind_eq_ok.1 h
    obtain ⟨rhs', hrhs, h⟩ := bind_eq_ok.1 h
    cases h
    exact ⟨Expr.singleCells_of_validateLinkedTarget hlhs hs.1,
      Expr.singleCells_of_validate hrhs hs.2⟩
  | sample lhs rhs l, _, h, hs => by
    obtain ⟨lhs', hlhs, h⟩ := bind_eq_ok.1 h
    obtain ⟨_, -, h⟩ := bind_eq_ok.1 h
    obtain ⟨rhs', hrhs, h⟩ := bind_eq_ok.1 h
    cases h
    exact ⟨Expr.singleCells_of_validateTarget hlhs hs.1, Expr.singleCells_of_validate hrhs hs.2⟩
  | loop i lower upper body l, s', h, hs => by
    rw [validate] at h
    split at h
    · cases h
    · obtain ⟨lower', hlower, h⟩ := bind_eq_ok.1 h
      obtain ⟨upper', hupper, h⟩ := bind_eq_ok.1 h
      obtain ⟨body', hbody, h⟩ := bind_eq_ok.1 h
      cases h
      exact ⟨Expr.singleCells_of_validate hlower hs.1, Expr.singleCells_of_validate hupper hs.2.1,
        singleCells_of_validateAll hbody hs.2.2⟩
  | branch condition body l, _, h, hs => by
    obtain ⟨condition', hcondition, h⟩ := bind_eq_ok.1 h
    obtain ⟨body', hbody, h⟩ := bind_eq_ok.1 h
    cases h
    exact ⟨Expr.singleCells_of_validate hcondition hs.1, singleCells_of_validateAll hbody hs.2⟩

theorem singleCells_of_validateAll : ∀ {ss ss' : List Stmt}, validateAll ss = .ok ss' →
    EveryOfAll Expr.NoSlices Expr.NoSlices ss → SingleCellsAll ss'
  | [], _, h, _ => by cases h; trivial
  | s :: ss, _, h, hs => by
    obtain ⟨s', hs', h⟩ := bind_eq_ok.1 h
    obtain ⟨ss', hss', h⟩ := bind_eq_ok.1 h
    cases h
    exact ⟨singleCells_of_validate hs' hs.1, singleCells_of_validateAll hss' hs.2⟩

end

theorem singleCells_of_unlinkAssign {f : String} {args : List Expr} {rhs : Expr}
    {l : Option Location} {s : Stmt} (h : unlinkAssign f args rhs l = .ok s)
    (hargs : ∀ e ∈ args, e.SingleCells) (hrhs : rhs.SingleCells) :
    s.Every Expr.SingleCells Expr.SingleCells := by
  unfold unlinkAssign at h
  split at h
  · cases h
    exact ⟨hargs _ (List.mem_singleton_self _),
      Expr.singleCells_call.2 (List.forall_mem_singleton.2 hrhs)⟩
  · cases h

mutual

theorem singleCells_of_unlink : ∀ {s s' : Stmt}, s.unlink = .ok s' →
    s.Every Expr.SingleCells Expr.SingleCells → s'.Every Expr.SingleCells Expr.SingleCells
  | assign lhs rhs l, s', h, hs => by
    cases lhs with
    | call f args k => exact singleCells_of_unlinkAssign h (Expr.singleCells_call.1 hs.1) hs.2
    | _ => cases h; exact hs
  | sample lhs rhs l, s', h, hs => by
    cases lhs with
    | call f args k => cases h
    | _ => cases h; exact hs
  | loop i lower upper body l, _, h, hs => by
    obtain ⟨body', hbody, h⟩ := bind_eq_ok.1 h
    cases h
    exact ⟨hs.1, hs.2.1, singleCells_of_unlinkAll hbody hs.2.2⟩
  | branch condition body l, _, h, hs => by
    obtain ⟨body', hbody, h⟩ := bind_eq_ok.1 h
    cases h
    exact ⟨hs.1, singleCells_of_unlinkAll hbody hs.2⟩

theorem singleCells_of_unlinkAll : ∀ {ss ss' : List Stmt}, unlinkAll ss = .ok ss' →
    SingleCellsAll ss → SingleCellsAll ss'
  | [], _, h, _ => by cases h; trivial
  | s :: ss, _, h, hs => by
    obtain ⟨s', hs', h⟩ := bind_eq_ok.1 h
    obtain ⟨ss', hss', h⟩ := bind_eq_ok.1 h
    cases h
    exact ⟨singleCells_of_unlink hs' hs.1, singleCells_of_unlinkAll hss' hs.2⟩

end

mutual

theorem sampledCells_samples : ∀ {s : Stmt}, s.Every Expr.SingleCells Expr.SingleCells →
    Expr.SampledCells s.samples
  | assign .., _ => nofun
  | sample .., hs => List.forall_mem_singleton.2 hs.2
  | loop _ _ _ body _, hs => sampledCells_samplesAll (show SingleCellsAll body from hs.2.2)
  | branch _ body _, hs => sampledCells_samplesAll (show SingleCellsAll body from hs.2)

theorem sampledCells_samplesAll : ∀ {ss : List Stmt}, SingleCellsAll ss →
    Expr.SampledCells (samplesAll ss)
  | [], _ => nofun
  | _ :: _, hs => List.forall_mem_append.2
      ⟨sampledCells_samples hs.1, sampledCells_samplesAll hs.2⟩

end

variable {samples : Samples}

mutual

theorem singleCells_of_expandSpecial (hsamples : Expr.SampledCells samples) : ∀ {s s' : Stmt},
    s.expandSpecial samples = .ok s' → s.Every Expr.SingleCells Expr.SingleCells →
    s'.Every Expr.SingleCells Expr.SingleCells
  | assign lhs rhs l, _, h, hs | sample lhs rhs l, _, h, hs => by
    obtain ⟨lhs', hlhs, h⟩ := bind_eq_ok.1 h
    obtain ⟨rhs', hrhs, h⟩ := bind_eq_ok.1 h
    cases h
    exact ⟨(Expr.singleCells_of_expandSpecial hsamples hlhs hs.1).1,
      (Expr.singleCells_of_expandSpecial hsamples hrhs hs.2).1⟩
  | loop i lower upper body l, _, h, hs => by
    obtain ⟨lower', hlower, h⟩ := bind_eq_ok.1 h
    obtain ⟨upper', hupper, h⟩ := bind_eq_ok.1 h
    obtain ⟨body', hbody, h⟩ := bind_eq_ok.1 h
    cases h
    exact ⟨(Expr.singleCells_of_expandSpecial hsamples hlower hs.1).1,
      (Expr.singleCells_of_expandSpecial hsamples hupper hs.2.1).1,
      singleCells_of_expandSpecialAll hsamples hbody hs.2.2⟩
  | branch condition body l, _, h, hs => by
    obtain ⟨condition', hcondition, h⟩ := bind_eq_ok.1 h
    obtain ⟨body', hbody, h⟩ := bind_eq_ok.1 h
    cases h
    exact ⟨(Expr.singleCells_of_expandSpecial hsamples hcondition hs.1).1,
      singleCells_of_expandSpecialAll hsamples hbody hs.2⟩

theorem singleCells_of_expandSpecialAll (hsamples : Expr.SampledCells samples) :
    ∀ {ss ss' : List Stmt}, expandSpecialAll samples ss = .ok ss' → SingleCellsAll ss →
    SingleCellsAll ss'
  | [], _, h, _ => by cases h; trivial
  | s :: ss, _, h, hs => by
    obtain ⟨s', hs', h⟩ := bind_eq_ok.1 h
    obtain ⟨ss', hss', h⟩ := bind_eq_ok.1 h
    cases h
    exact ⟨singleCells_of_expandSpecial hsamples hs' hs.1,
      singleCells_of_expandSpecialAll hsamples hss' hs.2⟩

end

end Stmt

/-! ## Programs -/

namespace Program

variable {p q : Program}

/-- A program in which no range, no whole axis and no empty brackets stand for an array's cells. -/
def NoSlices (p : Program) : Prop := Stmt.EveryOfAll Expr.NoSlices Expr.NoSlices p.statements

instance : DecidablePred NoSlices := fun p =>
  inferInstanceAs (Decidable (Stmt.EveryOfAll Expr.NoSlices Expr.NoSlices p.statements))

theorem singleCells_of_validate (h : p.validate = .ok q) (hp : p.NoSlices) :
    Stmt.SingleCellsAll q.statements := by
  obtain ⟨ss, hss, rfl⟩ := map_eq_ok.1 h
  exact Stmt.singleCells_of_validateAll hss hp

theorem singleCells_of_unlink (h : p.unlink = .ok q) (hp : Stmt.SingleCellsAll p.statements) :
    Stmt.SingleCellsAll q.statements := by
  obtain ⟨ss, hss, rfl⟩ := map_eq_ok.1 h
  exact Stmt.singleCells_of_unlinkAll hss hp

theorem singleCells_of_expandSpecial (h : p.expandSpecial = .ok q)
    (hp : Stmt.SingleCellsAll p.statements) : Stmt.SingleCellsAll q.statements := by
  obtain ⟨ss, hss, rfl⟩ := map_eq_ok.1 h
  exact Stmt.singleCells_of_expandSpecialAll (Stmt.sampledCells_samplesAll hp) hss hp

end Program

end PlateModel
