import PlateModel.Proofs.Resolution.Replay
import PlateModel.Proofs.Resolution.Settling

/-!
# Lowering beforehand

What can be lowered in the end cannot go wrong earlier. Under fewer definitions and in an earlier
registry the same comes out, as far as the indices are decided; if one is not, then lowering fails
for want of it and not for another reason. Either way the registry does not outgrow the final one.

* `Decides`: a computation returns what has a property, or fails for want of an index.
* `Follows`: it returns what another one returns on the final registry.
* `lower_follows`, `symbolic_follows`: what is lowered in the end is lowered in this way before.
* `resolve_decides`: what comes to a constant in the end comes to no other constant before.
* `resolve_repeats`: under the same definitions it comes to this constant.
-/

namespace PlateModel

open Referring

/-! ## Following computations -/

/-- On registries within `R` a computation returns what has a property, or fails for want of an
index, and does not let the registry outgrow `R`. -/
def Decides {α : Type} (R : Registry) (m : Referring α) (P : α → Prop) : Prop :=
  ∀ ⦃r⦄, r.WellFormed → r.Within R → ∃ x r', m r = (x, r') ∧ r'.WellFormed ∧ r'.Within R ∧
    ((∃ a, x = .ok a ∧ P a) ∨ ∃ e, x = .error e ∧ e.isUnresolvedIndex)

/-- On registries within `R` the one computation returns what the other returns on `R` itself, or
fails for want of an index. -/
def Follows {α : Type} (R : Registry) (m m' : Referring α) : Prop :=
  ∀ ⦃b⦄, m' R = (.ok b, R) → Decides R m (· = b)

variable {R : Registry}

section Computations

variable {α β : Type}

theorem Decides.pure {P : α → Prop} {a : α} (h : P a) : Decides R (Pure.pure a) P :=
  fun r hr hle => ⟨_, r, rfl, hr, hle, .inl ⟨a, rfl, h⟩⟩

theorem Decides.lift {P : α → Prop} {x : Except Fault α}
    (h : (∃ a, x = .ok a ∧ P a) ∨ ∃ e, x = .error e ∧ e.isUnresolvedIndex) :
    Decides R (liftM x : Referring α) P := fun r hr hle => ⟨x, r, rfl, hr, hle, h⟩

theorem Decides.bind {m : Referring α} {f : α → Referring β} {P : α → Prop} {Q : β → Prop}
    (hm : Decides R m P) (hf : ∀ a, P a → Decides R (f a) Q) : Decides R (m >>= f) Q := by
  intro r hr hle
  obtain ⟨x, r', hx, hr', hle', ⟨a, rfl, ha⟩ | ⟨e, rfl, he⟩⟩ := hm hr hle
  · obtain ⟨y, r'', hy, hrest⟩ := hf a ha hr' hle'
    exact ⟨y, r'', (run_bind_of_ok hx).trans hy, hrest⟩
  · exact ⟨.error e, r', run_bind_of_error hx, hr', hle', .inr ⟨e, rfl, he⟩⟩

theorem Follows.pure (a : α) : Follows R (Pure.pure a) (Pure.pure a) := by
  intro b h
  cases h
  exact .pure rfl

theorem Follows.lift {x y : Except Fault α}
    (h : ∀ b, y = .ok b → x = .ok b ∨ ∃ e, x = .error e ∧ e.isUnresolvedIndex) :
    Follows R (liftM x : Referring α) (liftM y : Referring α) := by
  intro b hy
  exact .lift ((h b (congrArg Prod.fst hy)).imp_left fun hx => ⟨b, hx, rfl⟩)

/-- The first computation leaves the registry as it is, since the second cannot let it shrink. -/
theorem Referring.GrowsAny.bind_eq_ok {m : Referring α} {f : α → Referring β} {c : β}
    (hR : R.WellFormed) (hm : m.GrowsAny) (hf : ∀ a, (f a).GrowsAny)
    (h : (m >>= f) R = (.ok c, R)) : ∃ b, m R = (.ok b, R) ∧ f b R = (.ok c, R) := by
  obtain ⟨b, R', hb, hc⟩ := run_bind_eq_ok.1 h
  have hRR' := hm.of_eq hb hR
  have heq : R' = R := hRR'.eq_of_within ((hf b).of_eq hc hRR'.wellFormed).within
  rw [heq] at hb hc
  exact ⟨b, hb, hc⟩

theorem Follows.bind {m m' : Referring α} {f f' : α → Referring β} (hR : R.WellFormed)
    (hm : Follows R m m') (hgrows : m'.GrowsAny) (hf : ∀ a, Follows R (f a) (f' a))
    (hfgrows : ∀ a, (f' a).GrowsAny) : Follows R (m >>= f) (m' >>= f') := by
  intro c h
  obtain ⟨b, hb, hc⟩ := hgrows.bind_eq_ok hR hfgrows h
  refine (hm hb).bind ?_
  rintro _ rfl
  exact hf _ hc

end Computations

/-! ## Following references and expressions -/

variable {d D : Definitions}

/-- A reference to a single cell stands for the cell in every earlier registry. -/
theorem referTo_follows (hR : R.WellFormed) (array : String) {is : List Index}
    (his : is.all (·.isPosition)) : Follows R (referTo array is) (referTo array is) := by
  intro b h r hr hle
  simp only [referTo] at h
  split at h
  · next ref R' heq =>
    cases h
    obtain ⟨-, -, -, -, hb⟩ := (Registry.reference_eq_ok hR).1 heq
    obtain ⟨s, r', hr', hle'⟩ := Registry.reference_within hr hR hle heq
    obtain ⟨-, -, halloc, rfl, -⟩ := (Registry.reference_eq_ok hr).1 hr'
    refine ⟨.ok b, _, ?_, hr.grown halloc, hle', .inl ⟨b, rfl, rfl⟩⟩
    simp only [referTo, hr']
    rw [hb, denoted_of_positions his, denoted_of_positions his]
  · cases h

namespace Definitions

theorem integer_follows (h : d.Within D) (written lowered : Expr) :
    Follows R (liftM (d.integer written lowered) : Referring Int)
      (liftM (D.integer written lowered) : Referring Int) := by
  refine .lift fun i hi => ?_
  obtain ⟨v, hD, hv⟩ := integer_eq_ok.1 hi
  obtain ⟨o, ho⟩ := outcome_of_within h hD
  cases o with
  | constant w =>
    have := outcome_mono h ho
    rw [hD] at this
    cases this
    exact .inl (integer_eq_ok.2 ⟨v, ho, hv⟩)
  | symbol x | residual e =>
    refine .inr ⟨.model (.unresolvedIndex written) written.location, ?_, rfl⟩
    simp only [integer, ho]
    rfl

/-- An expression at an index position comes to the same integer, if it is decided. -/
theorem position_follows (h : d.Within D) (hR : R.WellFormed) {e : Expr} {α : Type}
    {f g : Int → Referring α} (he : Follows R (d.lower e) (D.lower e))
    (hf : ∀ i, Follows R (f i) (g i)) (hgrows : ∀ i, (g i).GrowsAny) :
    Follows R (d.lower e >>= fun a => (liftM (d.integer e a) : Referring Int) >>= f)
      (D.lower e >>= fun a => (liftM (D.integer e a) : Referring Int) >>= g) := by
  refine he.bind hR (lower_grows D e grows_any) (fun a => ?_) fun _ => (Grows.lift _).bind hgrows
  exact (integer_follows h e a).bind hR (Grows.lift _) hf hgrows

mutual

/-- An expression that refers to single cells is lowered to the same, if its indices are decided. -/
theorem lower_follows (h : d.Within D) (hR : R.WellFormed) : ∀ {e : Expr}, e.SingleCells →
    Follows R (d.lower e) (D.lower e)
  | .literal v k, _ => by rw [lower, lower]; exact .pure _
  | .name x, _ => by rw [lower, lower]; exact .pure _
  | .colon l, _ => by rw [lower, lower]; exact .pure _
  | .index base is l, he => by
    rw [lower, lower]
    have hpoints : ∀ i ∈ is, i.isPoint := he _ (List.mem_cons_self ..)
    refine .bind hR (.lift fun _ hx => .inl hx) (.lift _) (fun array => ?_) fun array => ?_
    · exact reference_follows h hR array hpoints (he.singleIndices _ (List.mem_cons_self ..))
        (fun _ => .pure _) fun _ => .pure _
    · refine (indices_grows D is grows_any).bind fun js => ?_
      exact (referTo_grows trivial js).bind fun _ => .pure _
  | .call f args l, he => by
    rw [lower, lower]
    exact (lowerAll_follows h hR he).bind hR (lowerAll_grows D args grows_any) (fun _ => .pure _)
      fun _ => .pure _
  | .range a b l, he => by
    rw [lower, lower]
    refine (lower_follows h hR fun r hr => he r (List.mem_append_left _ hr)).bind hR
      (lower_grows D a grows_any) (fun _ => ?_) fun _ =>
        (lower_grows D b grows_any).bind fun _ => .pure _
    exact (lower_follows h hR fun r hr => he r (List.mem_append_right _ hr)).bind hR
      (lower_grows D b grows_any) (fun _ => .pure _) fun _ => .pure _
  | .stepped a b s l, he => by
    have hb : ∀ r ∈ b.references ++ s.references, r ∈ (Expr.stepped a b s l).references :=
      fun r hr => List.mem_append_right _ hr
    rw [lower, lower]
    refine (lower_follows h hR fun r hr => he r (hb r (List.mem_append_right _ hr))).bind hR
      (lower_grows D s grows_any) (fun _ => ?_) fun _ => (lower_grows D a grows_any).bind fun _ =>
        (lower_grows D b grows_any).bind fun _ => .pure _
    refine (lower_follows h hR fun r hr => he r (List.mem_append_left _ hr)).bind hR
      (lower_grows D a grows_any) (fun _ => ?_) fun _ =>
        (lower_grows D b grows_any).bind fun _ => .pure _
    exact (lower_follows h hR fun r hr => he r (hb r (List.mem_append_left _ hr))).bind hR
      (lower_grows D b grows_any) (fun _ => .pure _) fun _ => .pure _
  | .array xs shape l, he => by
    rw [lower, lower]
    exact (lowerAll_follows h hR he).bind hR (lowerAll_grows D xs grows_any) (fun _ => .pure _)
      fun _ => .pure _
termination_by e => (sizeOf e, 0)

theorem lowerAll_follows (h : d.Within D) (hR : R.WellFormed) : ∀ {es : List Expr},
    (∀ r ∈ Expr.referencesOfAll es, ∀ i ∈ r.2, i.isPoint) →
    Follows R (d.lowerAll es) (D.lowerAll es)
  | [], _ => by rw [lowerAll, lowerAll]; exact .pure _
  | e :: es, he => by
    rw [lowerAll, lowerAll]
    refine (lower_follows h hR fun r hr => he r (List.mem_append_left _ hr)).bind hR
      (lower_grows D e grows_any) (fun _ => ?_) fun _ =>
        (lowerAll_grows D es grows_any).bind fun _ => .pure _
    exact (lowerAll_follows h hR fun r hr => he r (List.mem_append_right _ hr)).bind hR
      (lowerAll_grows D es grows_any) (fun _ => .pure _) fun _ => .pure _
termination_by es => (sizeOf es, 0)

/-- Indices that are points come to the same positions, if they are decided. -/
theorem indices_follows (h : d.Within D) (hR : R.WellFormed) : ∀ {is : List Expr},
    (∀ i ∈ is, i.isPoint) → (∀ i ∈ is, i.SingleCells) →
    Follows R (d.indices is) (D.indices is)
  | [], _, _ => by rw [indices, indices]; exact .pure _
  | .colon _ :: _, hpoints, _ | .stepped .. :: _, hpoints, _ | .range .. :: _, hpoints, _ =>
    nomatch hpoints _ (List.mem_cons_self ..)
  | .literal v k :: rest, hpoints, his | .name x :: rest, hpoints, his
  | .index base is l :: rest, hpoints, his | .call f args l :: rest, hpoints, his
  | .array xs shape l :: rest, hpoints, his => by
    rw [indices, indices]
    · refine position_follows h hR (lower_follows h hR (his _ (List.mem_cons_self ..)))
        (fun i => ?_) fun _ => (indices_grows D rest grows_any).bind fun _ => .pure _
      refine (indices_follows h hR (fun i hi => hpoints i (List.mem_cons_of_mem _ hi))
        fun i hi => his i (List.mem_cons_of_mem _ hi)).bind hR (indices_grows D rest grows_any)
          (fun _ => .pure _) fun _ => .pure _
    all_goals nofun
termination_by is => (sizeOf is, 0)

/-- A reference to a single cell stands for the same cell, if its indices are decided. -/
theorem reference_follows (h : d.Within D) (hR : R.WellFormed) (array : String) {is : List Expr}
    (hpoints : ∀ i ∈ is, i.isPoint) (his : ∀ i ∈ is, i.SingleCells) {α : Type}
    {f : Reference → Referring α} (hf : ∀ c, Follows R (f c) (f c))
    (hgrows : ∀ c, (f c).GrowsAny) :
    Follows R (d.indices is >>= fun js => referTo array js >>= f)
      (D.indices is >>= fun js => referTo array js >>= f) := by
  intro b hb
  have hrefers (js : List Index) : ((referTo array js >>= f : Referring α)).GrowsAny :=
    (referTo_grows trivial js).bind hgrows
  obtain ⟨js, hjs, hb⟩ := Referring.GrowsAny.bind_eq_ok hR (indices_grows D is grows_any) hrefers hb
  have hpositions : js.all (·.isPosition) := by
    obtain ⟨_, -, rfl, hmap⟩ := (indices_replays (.refl D) hR his).ok hR hjs (.refl _)
    rw [List.all_eq_true]
    intro j hj
    have hmem : j.isPosition ∈ is.map (·.isPoint) := hmap ▸ List.mem_map_of_mem hj
    obtain ⟨i, hi, hij⟩ := List.mem_map.1 hmem
    rw [← hij]
    exact hpoints i hi
  refine (indices_follows h hR hpoints his hjs).bind ?_
  rintro _ rfl
  exact (referTo_follows hR array hpositions).bind hR (referTo_grows trivial _) hf hgrows hb
termination_by (sizeOf is, 1)

end

/-- A name, and a reference to a single cell, stand for the same, if they are decided. -/
theorem symbolic_follows (h : d.Within D) (hR : R.WellFormed) {e : Expr} (he : e.SingleCells) :
    Follows R (d.symbolic e) (D.symbolic e) := by
  unfold symbolic
  split
  · exact .pure _
  · next base is l =>
    refine .bind hR (.lift fun _ hx => .inl hx) (.lift _) (fun array => ?_) fun array => ?_
    · exact reference_follows h hR array (he _ (List.mem_cons_self ..))
        (he.singleIndices _ (List.mem_cons_self ..)) (fun _ => .pure _) fun _ => .pure _
    · refine (indices_grows D is grows_any).bind fun js => ?_
      exact (referTo_grows trivial js).bind fun _ => .pure _
  · intro b hb
    cases hb

/-- An expression that comes to a constant in the end comes to no other constant before. -/
theorem resolve_decides (h : d.Within D) (hR : R.WellFormed) {e : Expr} (he : e.SingleCells)
    {v : Value} (hv : D.resolve e R = (.ok (.constant v), R)) :
    Decides R (d.resolve e) fun o => ∀ w, o = .constant w → w = v := by
  obtain ⟨a, ha, hout⟩ := Referring.GrowsAny.bind_eq_ok hR (lower_grows D e grows_any)
    (fun _ => Grows.lift _) hv
  have hout : D.outcome a = .ok (.constant v) := orFault_eq_ok.1 (congrArg Prod.fst hout)
  refine (lower_follows h hR he ha).bind ?_
  rintro _ rfl
  obtain ⟨o, ho⟩ := outcome_of_within h hout
  refine .lift (.inl ⟨o, orFault_eq_ok.2 ho, fun w hw => ?_⟩)
  rw [hw] at ho
  have hmono := outcome_mono h ho
  rw [hout] at hmono
  cases hmono
  rfl

/-- What an expression comes to in the end, it comes to before under the same definitions. -/
theorem resolve_repeats (hR : R.WellFormed) {e : Expr} (he : e.SingleCells) {o : Outcome}
    (h : d.resolve e R = (.ok o, R)) {r : Registry} (hr : r.WellFormed) (hle : r.Within R) :
    ∃ r', d.resolve e r = (.ok o, r') ∧ r'.WellFormed ∧ r'.Within R := by
  obtain ⟨a, ha, hout⟩ := Referring.GrowsAny.bind_eq_ok hR (lower_grows d e grows_any)
    (fun _ => Grows.lift _) h
  obtain ⟨x, r', hx, hr', hle', ⟨_, rfl, rfl⟩ | ⟨f, rfl, hf⟩⟩ :=
    lower_follows (.refl d) hR he ha hr hle
  · refine ⟨r', (run_bind_of_ok hx).trans ?_, hr', hle'⟩
    rw [run_lift, show orFault (d.outcome _) = .ok o from congrArg Prod.fst hout]
  · have hstuck := (lower_replays (.refl d) hR he.singleIndices).stuck rfl hr hx hf hle'
    rw [ha] at hstuck
    cases hstuck

end Definitions

end PlateModel
