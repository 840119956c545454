import PlateModel.Proofs.Resolution.Growth
import PlateModel.Proofs.Resolution.Order

/-!
# Lowering again later

What has been lowered under some definitions and in some registry can be lowered again under
extended definitions in any later registry, which it leaves as it is: the indices are the same
integers, because what they refer to are single cells, so the same cells or larger slices come out.
An index that could not be decided still cannot be decided as long as the definitions are the same.

* `Replays`: the one computation does in a fixed registry what the other did before.
* `lower_replays`, `symbolic_replays`: what is lowered is lowered again in this way.
* `resolve_mono`: a constant that an expression comes to is what it comes to later.
-/

namespace PlateModel

/-! ## Integers that are indices -/

/-- The integer that a number stands for as an index or a bound; truth values stand for none. -/
def Number.position? : Number → Option Int
  | int i => some i
  | real x => Binary64.toInt? x
  | truth _ => none

theorem orFault_eq_ok {α : Type} {x : Except Failure α} {a : α} :
    orFault x = .ok a ↔ x = .ok a := by
  cases x with
  | ok b => exact ⟨fun h => by cases h; rfl, fun h => by cases h; rfl⟩
  | error e => exact ⟨nofun, nofun⟩

namespace Definitions

variable {d D : Definitions}

/-- An index comes to an integer if it comes to a number that stands for it. -/
theorem integer_eq_ok {written lowered : Expr} {i : Int} :
    d.integer written lowered = .ok i ↔
      ∃ v, d.outcome lowered = .ok (.constant (.number v)) ∧ v.position? = some i := by
  simp only [integer, bind_eq_ok, orFault_eq_ok]
  constructor
  · rintro ⟨o, ho, h⟩
    cases o with
    | constant v =>
      cases v with
      | number v =>
        refine ⟨v, ho, ?_⟩
        cases v with
        | truth b => cases h
        | int j => cases h; rfl
        | real x =>
          simp only [Outcome.number?] at h
          split at h
          · next k hk => cases h; exact hk
          · cases h
      | _ => cases h
    | _ => cases h
  · rintro ⟨v, ho, h⟩
    refine ⟨_, ho, ?_⟩
    cases v with
    | truth b => cases h
    | int j => cases h; rfl
    | real x =>
      have hx : Binary64.toInt? x = some i := h
      simp only [Outcome.number?, hx]
      rfl

theorem integer_mono (h : d.Within D) {written lowered : Expr} {i : Int}
    (hi : d.integer written lowered = .ok i) : D.integer written lowered = .ok i := by
  obtain ⟨v, ho, hv⟩ := integer_eq_ok.1 hi
  exact integer_eq_ok.2 ⟨v, outcome_mono h ho, hv⟩

end Definitions

/-! ## References never fail for want of an index -/

/-- What a problem that shows a part of an index comes to. -/
theorem Index.fault_of_shown {shown : Option String} {p : String → Problem} {e : Fault}
    (h : (match shown with
      | some s => Fault.model (p s) none
      | none => .evaluation .unsuitableValue) = e)
    (hp : ∀ s, (Fault.model (p s) none).isUnresolvedIndex = false) :
    e = .evaluation .unsuitableValue ∨ ∃ p, e = .model p none ∧ e.isUnresolvedIndex = false := by
  subst h
  cases shown with
  | none => exact .inl rfl
  | some s => exact .inr ⟨_, rfl, hp s⟩

/-- A rule that an index breaks is a problem of the model, or cannot be shown. -/
theorem Index.fault_of_check {array : String} {i : Index} {e : Fault}
    (h : i.check array = .error e) : e = .evaluation .unsuitableValue ∨
      ∃ p, e = .model p none ∧ e.isUnresolvedIndex = false := by
  cases i with
  | position i =>
    simp only [check] at h
    generalize Decimal.boundedInt? i = shown at h
    split at h
    · exact fault_of_shown (Except.error.inj h) fun _ => rfl
    · cases h
  | range start stop step =>
    simp only [check] at h
    generalize Decimal.boundedInt? start = shown at h
    split at h
    · cases h
      exact .inr ⟨_, rfl, rfl⟩
    · split at h
      · exact fault_of_shown (Except.error.inj h) fun _ => rfl
      · cases h
  | full => cases h
  | bounds a b c => exact fault_of_shown (Except.error.inj h) fun _ => rfl
  | other x => exact fault_of_shown (Except.error.inj h) fun _ => rfl

theorem Index.isUnresolvedIndex_of_check {array : String} {i : Index} {e : Fault}
    (h : i.check array = .error e) : e.isUnresolvedIndex = false := by
  rcases Index.fault_of_check h with rfl | ⟨_, -, he⟩
  · rfl
  · exact he

namespace Registry

variable {r R : Registry} {array : String} {is : List Index} {e : Fault}

theorem isUnresolvedIndex_of_reach (h : r.reach array is = .error e) :
    e.isUnresolvedIndex = false := by
  simp only [reach, allocate] at h
  split at h
  · split at h <;> cases h
    rfl
  · split at h
    · cases h; rfl
    · split at h
      · cases h
      · simp only [enlarge] at h
        split at h
        · cases h; rfl
        · split at h
          · cases h; rfl
          · split at h <;> cases h
            rfl

theorem isUnresolvedIndex_of_reference (h : r.reference array is = .error e) :
    e.isUnresolvedIndex = false := by
  have check : ∀ {is : List Index}, is.forM (Index.check array) = .error e →
      e.isUnresolvedIndex = false := by
    intro is
    induction is with
    | nil => nofun
    | cons i is ih =>
      intro h
      rcases bind_eq_error.1 h with h | ⟨⟨⟩, -, h⟩
      · exact Index.isUnresolvedIndex_of_check h
      · exact ih h
  simp only [reference] at h
  rcases bind_eq_error.1 h with h | ⟨⟨⟩, -, h⟩
  · exact check h
  rcases bind_eq_error.1 h with h | ⟨r', -, h⟩
  · exact isUnresolvedIndex_of_reach h
  rcases bind_eq_error.1 h with h | ⟨a, -, h⟩
  · simp only [find] at h
    split at h <;> cases h
    rfl
  · split at h <;> cases h

end Registry

/-! ## Replaying computations -/

/-- Whatever the one computation returns without letting the registry outgrow `R`, the other returns
on `R` itself, which it does not change, up to `Q`. If `same`, then it also fails for want of an
index where the one does. -/
structure Replays {α β : Type} (R : Registry) (same : Prop) (m : Referring α) (m' : Referring β)
    (Q : α → β → Prop) : Prop where
  ok : ∀ {r a r'}, r.WellFormed → m r = (.ok a, r') → r'.Within R → ∃ b, m' R = (.ok b, R) ∧ Q a b
  stuck : same → ∀ {r e r'}, r.WellFormed → m r = (.error e, r') → e.isUnresolvedIndex →
    r'.Within R → m' R = (.error e, R)

/-- Any array may grow. -/
abbrev Referring.GrowsAny {α : Type} (m : Referring α) : Prop := Grows (fun _ => True) m

namespace Replays

variable {R : Registry} {same : Prop} {α β α' β' : Type}

theorem pure {Q : α → β → Prop} {a : α} {b : β} (h : Q a b) :
    Replays R same (Pure.pure a) (Pure.pure b) Q where
  ok _ h' _ := by cases h'; exact ⟨b, rfl, h⟩
  stuck _ _ _ _ _ h' := nomatch h'

theorem throw {Q : α → β → Prop} (e : Fault) :
    Replays R same (MonadExcept.throw e : Referring α) (MonadExcept.throw e : Referring β) Q where
  ok _ h' := nomatch h'
  stuck _ _ _ _ _ h' _ _ := by cases h'; rfl

theorem lift {Q : α → β → Prop} {x : Except Fault α} {y : Except Fault β}
    (hok : ∀ a, x = .ok a → ∃ b, y = .ok b ∧ Q a b)
    (hstuck : same → ∀ e, x = .error e → e.isUnresolvedIndex → y = .error e) :
    Replays R same (liftM x : Referring α) (liftM y : Referring β) Q where
  ok _ h' _ := by
    cases h'
    obtain ⟨b, rfl, hb⟩ := hok _ rfl
    exact ⟨b, rfl, hb⟩
  stuck hs _ _ _ _ h' he _ := by
    cases h'
    rw [hstuck hs _ rfl he]
    rfl

/-- Sequences are replayed step by step: in between the registry has not outgrown `R` either. -/
theorem bind {m : Referring α} {m' : Referring β} {f : α → Referring α'} {f' : β → Referring β'}
    {P : α → β → Prop} {Q : α' → β' → Prop} (hm : Replays R same m m' P)
    (hgrows : m.GrowsAny) (hf : ∀ a b, P a b → Replays R same (f a) (f' b) Q)
    (hfgrows : ∀ a, (f a).GrowsAny) : Replays R same (m >>= f) (m' >>= f') Q where
  ok hr h hle := by
    obtain ⟨a, u, ha, hb⟩ := run_bind_eq_ok.1 h
    have hu := (hgrows.of_eq ha hr).wellFormed
    have hule := ((hfgrows a).of_eq hb hu).within.trans hle
    obtain ⟨b, hb', hP⟩ := hm.ok hr ha hule
    obtain ⟨c, hc, hQ⟩ := (hf a b hP).ok hu hb hle
    exact ⟨c, run_bind_eq_ok.2 ⟨b, R, hb', hc⟩, hQ⟩
  stuck hs _ _ _ hr h he hle := by
    rcases run_bind_eq_error.1 h with h | ⟨a, u, ha, hb⟩
    · exact run_bind_of_error (hm.stuck hs hr h he hle)
    · have hu := (hgrows.of_eq ha hr).wellFormed
      have hule := ((hfgrows a).of_eq hb hu).within.trans hle
      obtain ⟨b, hb', hP⟩ := hm.ok hr ha hule
      rw [run_bind_of_ok hb']
      exact (hf a b hP).stuck hs hu hb he hle

end Replays

/-! ## Replaying references and expressions -/

open Referring

variable {d D : Definitions} {R : Registry}

/-- The cells of one reference at two times. -/
def SameReference (array : String) (is : List Index) (a b : Reference) : Prop :=
  ∃ s t, a = denoted array is s ∧ b = denoted array is t

/-- The indices of an array at two times. -/
def SameIndices (is : List Expr) (js ks : List Index) : Prop :=
  js = ks ∧ js.map (·.isPosition) = is.map (·.isPoint)

theorem SameIndices.cons {e : Expr} {is : List Expr} {i : Index} {js ks : List Index}
    (hi : i.isPosition = e.isPoint) (h : SameIndices is js ks) :
    SameIndices (e :: is) (i :: js) (i :: ks) := by
  obtain ⟨rfl, h⟩ := h
  exact ⟨rfl, by rw [List.map_cons, List.map_cons, hi, h]⟩

theorem SameReference.eq {array : String} {is : List Expr} {js ks : List Index}
    {a b : Reference} (h : SameReference array js a b) (hj : SameIndices is js ks)
    (his : ∀ i ∈ is, i.isPoint) : a = b := by
  obtain ⟨s, t, rfl, rfl⟩ := h
  have hall : js.all (·.isPosition) := by
    rw [List.all_eq_true]
    intro j hj'
    have hmem : j.isPosition ∈ is.map (·.isPoint) := hj.2 ▸ List.mem_map_of_mem hj'
    obtain ⟨i, hi, hij⟩ := List.mem_map.1 hmem
    rw [← hij]
    exact his i hi
  rw [denoted_of_positions hall, denoted_of_positions hall]

theorem referTo_replays {same : Prop} (hR : R.WellFormed) (array : String) (is : List Index) :
    Replays R same (referTo array is) (referTo array is) (SameReference array is) where
  ok {r a r'} hr h hle := by
    simp only [referTo] at h
    split at h
    · next ref r'' heq =>
      cases h
      obtain ⟨S, -, hS⟩ := Registry.reference_mono hr hR heq hle
      obtain ⟨-, -, -, -, rfl⟩ := (Registry.reference_eq_ok hr).1 heq
      exact ⟨_, by simp only [referTo, hS], _, S, rfl, rfl⟩
    · cases h
  stuck _ {r e r'} _ h he _ := by
    simp only [referTo] at h
    split at h
    · cases h
    · next e' heq =>
      cases h
      rw [Registry.isUnresolvedIndex_of_reference heq] at he
      cases he

namespace Definitions

theorem grows_any {rs : List (Expr × List Expr)} : RefersIn (fun _ => True) rs :=
  fun _ _ _ => trivial

theorem integer_replays (h : d.Within D) (written : Expr) {a b : Expr} (hab : a = b) :
    Replays R (d = D) (liftM (d.integer written a) : Referring Int)
      (liftM (D.integer written b) : Referring Int) (· = ·) := by
  subst hab
  refine .lift (fun i hi => ⟨i, integer_mono h hi, rfl⟩) ?_
  rintro rfl e he -
  exact he

/-- An expression at an index position comes to the same integer again. -/
theorem position_replays (h : d.Within D) {e : Expr} {α β : Type} {f : Int → Referring α}
    {g : Int → Referring β} {Q : α → β → Prop}
    (he : Replays R (d = D) (d.lower e) (D.lower e) fun a b => e.SingleCells → a = b)
    (hsingle : e.SingleCells) (hf : ∀ i, Replays R (d = D) (f i) (g i) Q)
    (hgrows : ∀ i, (f i).GrowsAny) :
    Replays R (d = D) (d.lower e >>= fun a => (liftM (d.integer e a) : Referring Int) >>= f)
      (D.lower e >>= fun a => (liftM (D.integer e a) : Referring Int) >>= g) Q := by
  refine he.bind (lower_grows d e grows_any) ?_ fun _ => (Grows.lift _).bind hgrows
  intro a b hab
  refine (integer_replays h e (hab hsingle)).bind (Grows.lift _) ?_ hgrows
  rintro i _ rfl
  exact hf i

mutual

/-- An expression is lowered again; to the same expression, if it refers to single cells. -/
theorem lower_replays (h : d.Within D) (hR : R.WellFormed) : ∀ {e : Expr}, e.SingleIndices →
    Replays R (d = D) (d.lower e) (D.lower e) fun a b => e.SingleCells → a = b
  | .literal v k, _ => by rw [lower, lower]; exact .pure fun _ => rfl
  | .name x, _ => by rw [lower, lower]; exact .pure fun _ => rfl
  | .colon l, _ => by rw [lower, lower]; exact .pure fun _ => rfl
  | .index base is l, he => by
    rw [lower, lower]
    refine .bind (P := (· = ·)) (.lift (fun a ha => ⟨a, ha, rfl⟩) fun _ e he _ => he) (.lift _) ?_
      fun array => ?_
    · rintro array _ rfl
      have his : ∀ i ∈ is, i.SingleCells := he _ (List.mem_cons_self ..)
      refine (indices_replays h hR his).bind (indices_grows d is grows_any) ?_ fun js => ?_
      · rintro js ks hj
        obtain ⟨rfl, -⟩ := id hj
        refine (referTo_replays hR array js).bind (referTo_grows trivial js) ?_ fun _ => .pure _
        intro a b hab
        refine .pure fun hsingle => ?_
        rw [hab.eq hj (hsingle _ (List.mem_cons_self ..))]
      · exact (referTo_grows trivial js).bind fun _ => .pure _
    · refine (indices_grows d is grows_any).bind fun js => ?_
      exact (referTo_grows trivial js).bind fun _ => .pure _
  | .call f args l, he => by
    rw [lower, lower]
    refine (lowerAll_replays h hR he).bind (lowerAll_grows d args grows_any) ?_ fun _ => .pure _
    intro a b hab
    exact .pure fun hs => by rw [hab hs]
  | .range a b l, he => by
    rw [lower, lower]
    refine (lower_replays h hR fun r hr => he r (List.mem_append_left _ hr)).bind
      (lower_grows d a grows_any) ?_ fun _ => (lower_grows d b grows_any).bind fun _ => .pure _
    intro a₁ a₂ ha
    refine (lower_replays h hR fun r hr => he r (List.mem_append_right _ hr)).bind
      (lower_grows d b grows_any) ?_ fun _ => .pure _
    intro b₁ b₂ hb
    refine .pure fun hs => ?_
    rw [ha fun r hr => hs r (List.mem_append_left _ hr),
      hb fun r hr => hs r (List.mem_append_right _ hr)]
  | .stepped a b s l, he => by
    have hb' : ∀ r ∈ b.references ++ s.references, r ∈ (Expr.stepped a b s l).references :=
      fun r hr => List.mem_append_right _ hr
    rw [lower, lower]
    refine (lower_replays h hR fun r hr => he r (hb' r (List.mem_append_right _ hr))).bind
      (lower_grows d s grows_any) ?_ fun _ => (lower_grows d a grows_any).bind fun _ =>
        (lower_grows d b grows_any).bind fun _ => .pure _
    intro s₁ s₂ hs₁
    refine (lower_replays h hR fun r hr => he r (List.mem_append_left _ hr)).bind
      (lower_grows d a grows_any) ?_ fun _ => (lower_grows d b grows_any).bind fun _ => .pure _
    intro a₁ a₂ ha
    refine (lower_replays h hR fun r hr => he r (hb' r (List.mem_append_left _ hr))).bind
      (lower_grows d b grows_any) ?_ fun _ => .pure _
    intro b₁ b₂ hb
    refine .pure fun hs => ?_
    rw [ha fun r hr => hs r (List.mem_append_left _ hr),
      hb fun r hr => hs r (hb' r (List.mem_append_left _ hr)),
      hs₁ fun r hr => hs r (hb' r (List.mem_append_right _ hr))]
  | .array xs shape l, he => by
    rw [lower, lower]
    refine (lowerAll_replays h hR he).bind (lowerAll_grows d xs grows_any) ?_ fun _ => .pure _
    intro a b hab
    exact .pure fun hs => by rw [hab hs]

theorem lowerAll_replays (h : d.Within D) (hR : R.WellFormed) : ∀ {es : List Expr},
    (∀ r ∈ Expr.referencesOfAll es, ∀ i ∈ r.2, i.SingleCells) →
    Replays R (d = D) (d.lowerAll es) (D.lowerAll es) fun as bs =>
      (∀ r ∈ Expr.referencesOfAll es, ∀ i ∈ r.2, i.isPoint) → as = bs
  | [], _ => by rw [lowerAll, lowerAll]; exact .pure fun _ => rfl
  | e :: es, he => by
    rw [lowerAll, lowerAll]
    refine (lower_replays h hR fun r hr => he r (List.mem_append_left _ hr)).bind
      (lower_grows d e grows_any) ?_ fun _ => (lowerAll_grows d es grows_any).bind fun _ => .pure _
    intro a b ha
    refine (lowerAll_replays h hR fun r hr => he r (List.mem_append_right _ hr)).bind
      (lowerAll_grows d es grows_any) ?_ fun _ => .pure _
    intro as bs has
    refine .pure fun hs => ?_
    rw [ha fun r hr => hs r (List.mem_append_left _ hr),
      has fun r hr => hs r (List.mem_append_right _ hr)]

/-- Indices that refer to single cells are the same again. -/
theorem indices_replays (h : d.Within D) (hR : R.WellFormed) : ∀ {is : List Expr},
    (∀ i ∈ is, i.SingleCells) →
    Replays R (d = D) (d.indices is) (D.indices is) (SameIndices is)
  | [], _ => by rw [indices, indices]; exact .pure ⟨rfl, rfl⟩
  | .colon _ :: rest, his => by
    rw [indices, indices]
    refine (indices_replays h hR fun i hi => his i (List.mem_cons_of_mem _ hi)).bind
      (indices_grows d rest grows_any) ?_ fun _ => .pure _
    exact fun js ks hj => .pure (hj.cons rfl)
  | .stepped a b s l :: _, _ => by rw [indices, indices]; exact .throw _
  | .range a b l :: rest, his => by
    have hab : (Expr.range a b l).SingleCells := his _ (List.mem_cons_self ..)
    have ha : a.SingleCells := fun r hr => hab r (List.mem_append_left _ hr)
    have hb : b.SingleCells := fun r hr => hab r (List.mem_append_right _ hr)
    rw [indices, indices]
    refine position_replays h (lower_replays h hR ha.singleIndices) ha ?_ fun _ => ?_
    · intro i
      refine position_replays h (lower_replays h hR hb.singleIndices) hb ?_ fun _ => ?_
      · intro j
        refine (indices_replays h hR fun i hi => his i (List.mem_cons_of_mem _ hi)).bind
          (indices_grows d rest grows_any) ?_ fun _ => .pure _
        exact fun js ks hj => .pure (hj.cons rfl)
      · exact (indices_grows d rest grows_any).bind fun _ => .pure _
    · refine (lower_grows d b grows_any).bind fun _ => (Grows.lift _).bind fun _ => ?_
      exact (indices_grows d rest grows_any).bind fun _ => .pure _
  | .literal v k :: rest, his | .name x :: rest, his | .index base is l :: rest, his
  | .call f args l :: rest, his | .array xs shape l :: rest, his => by
    rw [indices, indices]
    · refine position_replays h (lower_replays h hR
        (his _ (List.mem_cons_self ..)).singleIndices) (his _ (List.mem_cons_self ..)) ?_
        fun _ => (indices_grows d rest grows_any).bind fun _ => .pure _
      intro i
      refine (indices_replays h hR fun i hi => his i (List.mem_cons_of_mem _ hi)).bind
        (indices_grows d rest grows_any) ?_ fun _ => .pure _
      exact fun js ks hj => .pure (hj.cons rfl)
    all_goals nofun

end

/-- A name, and a reference to a single cell, stand for the same again. -/
theorem symbolic_replays (h : d.Within D) (hR : R.WellFormed) {e : Expr} (he : e.SingleIndices) :
    Replays R (d = D) (d.symbolic e) (D.symbolic e) fun a b =>
      (∀ x, a = .inl x → a = b) ∧ ∀ c, a = .inr (.one c) → a = b := by
  unfold symbolic
  split
  · exact .pure ⟨fun _ _ => rfl, fun _ _ => rfl⟩
  · next base is l =>
    refine .bind (P := (· = ·)) (.lift (fun a ha => ⟨a, ha, rfl⟩) fun _ e he _ => he) (.lift _) ?_
      fun array => ?_
    · rintro array _ rfl
      refine (indices_replays h hR (he _ (List.mem_cons_self ..))).bind
        (indices_grows d is grows_any) ?_ fun js => ?_
      · rintro js _ ⟨rfl, -⟩
        refine (referTo_replays hR array js).bind (referTo_grows trivial js) ?_ fun _ => .pure _
        rintro a b ⟨s, t, rfl, rfl⟩
        refine .pure ⟨fun _ hx => (Sum.inr_ne_inl hx).elim, fun c hc => ?_⟩
        unfold denoted at hc ⊢
        split at hc
        · next hall => rw [if_pos hall, if_pos hall]
        · cases hc
      · exact (referTo_grows trivial js).bind fun _ => .pure _
    · refine (indices_grows d is grows_any).bind fun js => ?_
      exact (referTo_grows trivial js).bind fun _ => .pure _
  · exact .throw _

/-- An expression that refers to single cells comes to the same constant again. -/
theorem resolve_mono (h : d.Within D) (hR : R.WellFormed) {e : Expr} (he : e.SingleCells)
    {r r' : Registry} {v : Value} (hr : r.WellFormed)
    (hv : d.resolve e r = (.ok (.constant v), r')) (hle : r'.Within R) :
    D.resolve e R = (.ok (.constant v), R) := by
  obtain ⟨a, u, ha, ho⟩ := run_bind_eq_ok.1 hv
  have hout : d.outcome a = .ok (.constant v) := orFault_eq_ok.1 (congrArg Prod.fst ho)
  obtain rfl : u = r' := congrArg Prod.snd ho
  obtain ⟨b, hb, hab⟩ := (lower_replays h hR he.singleIndices).ok hr ha hle
  rw [resolve, run_bind_of_ok hb, ← hab he, run_lift, outcome_mono h hout]
  rfl

end Definitions

end PlateModel
