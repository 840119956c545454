import PlateModel.Proofs.Expansion.Expands
import PlateModel.Proofs.State.Growth

/-!
# When bounds and guards are decided

A loop is unrolled when both of its bounds come to numbers that stand for integers, and a
conditional is decided when its guard comes to a truth value. Deciding one way is final: in every
later state the bounds and the guard come to the same.

* `loopBounds_eq_ok`, `guardValue_eq_ok`: when bounds and guards are decided.
* `loopBounds_bound`, `guardValue_guard`: what they are in every later state.
-/

namespace PlateModel

open Compiling

/-! ## Bounds and guards -/

/-- What keeps bounds from standing for integers. -/
def fractionalFault (a b : Number) (l : Option Location) : Fault :=
  match a.text?, b.text? with
  | some s, some t => .model (.fractionalBounds s t) l
  | _, _ => .evaluation .unsuitableValue

/-- One bound as an integer. -/
def integerBound (fractional : Fault) (n : Number) : Except Fault Int :=
  match n.toFloat? with
  | none => .error (.evaluation .overflow)
  | some x =>
    match n, Binary64.toInt? x with
    | .int i, _ => .ok i
    | _, some i => .ok i
    | _, none => .error fractional

theorem integerBounds_eq (a b : Number) (l : Option Location) :
    integerBounds a b l = (do
      let i ← integerBound (fractionalFault a b l) a
      let j ← integerBound (fractionalFault a b l) b
      return (i, j)) := rfl

/-- A bound that is no truth value is accepted if it stands for an integer. -/
theorem integerBound_eq_ok {fractional : Fault} {n : Number} {i : Int} (hn : n.isTruth = false) :
    integerBound fractional n = .ok i ↔ n.bound? = some i := by
  unfold integerBound Number.bound?
  cases n with
  | truth => cases hn
  | int j => cases (Number.int j).toFloat? <;> simp [Number.position?]
  | real x =>
    simp only [Number.toFloat?, Number.position?, Option.bind_some]
    cases Binary64.toInt? x <;> simp

/-- Bounds that are no truth values are accepted if they stand for integers. -/
theorem integerBounds_eq_ok {v w : Number} {l : Option Location} {a b : Int}
    (hv : v.isTruth = false) (hw : w.isTruth = false) :
    integerBounds v w l = .ok (a, b) ↔ v.bound? = some a ∧ w.bound? = some b := by
  simp only [integerBounds_eq, bind_eq_ok]
  constructor
  · rintro ⟨i, hi, j, hj, h⟩
    cases h
    exact ⟨(integerBound_eq_ok hv).1 hi, (integerBound_eq_ok hw).1 hj⟩
  · rintro ⟨hi, hj⟩
    exact ⟨a, (integerBound_eq_ok hv).2 hi, b, (integerBound_eq_ok hw).2 hj, rfl⟩

/-- An outcome that is a bound is a number, and no truth value. -/
theorem Outcome.bound?_eq_some {o : Outcome} {v : Number} :
    o.bound? = some v ↔ o = .constant (.number v) ∧ v.isTruth = false := by
  unfold bound?
  constructor
  · intro h
    obtain ⟨hv, ht⟩ := Option.filter_eq_some_iff.1 h
    refine ⟨?_, by simpa using ht⟩
    unfold number? at hv
    split at hv
    · cases hv; rfl
    · cases hv
  · rintro ⟨rfl, h⟩
    simp [number?, h]

theorem Number.isTruth_of_bound? {v : Number} {a : Int} (h : v.bound? = some a) :
    v.isTruth = false := by
  cases v with
  | truth b => simp [bound?, toFloat?, position?] at h
  | _ => rfl

/-- The bounds of a loop are decided when both come to numbers that stand for integers. -/
theorem loopBounds_eq_ok {lower upper : Expr} {l : Option Location} {s t : State} {a b : Int} :
    loopBounds lower upper l s = (.ok (some (a, b)), t) ↔ ∃ v w r r',
      s.toDefinitions.resolve lower s.registry = (.ok (.constant (.number v)), r) ∧
      s.toDefinitions.resolve upper r = (.ok (.constant (.number w)), r') ∧
      v.bound? = some a ∧ w.bound? = some b ∧ t = { s with registry := r' } := by
  unfold loopBounds
  constructor
  · intro h
    obtain ⟨outcomes, u, hu, h⟩ := run_bind_eq_ok.1 h
    cases outcomes with
    | error e => cases h
    | ok os =>
      obtain ⟨o, o'⟩ := os
      obtain ⟨r', hr', rfl⟩ := refer_eq.1 (unlessUnresolved_eq_ok.1 hu)
      obtain ⟨o₁, r, hr, h₂⟩ := run_bind_eq_ok.1 hr'
      obtain ⟨o₂, r₂, hr₂, h₃⟩ := run_bind_eq_ok.1 h₂
      cases h₃
      cases hv : o.bound? with
      | none => simp only [hv] at h; cases h
      | some v =>
        cases hw : o'.bound? with
        | none => simp only [hv, hw] at h; cases h
        | some w =>
          simp only [hv, hw] at h
          obtain ⟨rfl, hv'⟩ := Outcome.bound?_eq_some.1 hv
          obtain ⟨rfl, hw'⟩ := Outcome.bound?_eq_some.1 hw
          obtain ⟨ij, u, hi, h⟩ := run_bind_eq_ok.1 h
          cases h
          rw [run_lift] at hi
          obtain ⟨ha, hb⟩ := (integerBounds_eq_ok hv' hw').1 (congrArg Prod.fst hi)
          cases congrArg Prod.snd hi
          exact ⟨v, w, r, r', hr, hr₂, ha, hb, rfl⟩
  · rintro ⟨v, w, r, r', hr, hr', ha, hb, rfl⟩
    have hv := Number.isTruth_of_bound? ha
    have hw := Number.isTruth_of_bound? hb
    refine run_bind_eq_ok.2 ⟨.ok (.constant (.number v), .constant (.number w)), _,
      unlessUnresolved_eq_ok.2 (refer_eq.2 ⟨r', ?_, rfl⟩), ?_⟩
    · exact run_bind_eq_ok.2 ⟨_, r, hr, run_bind_eq_ok.2 ⟨_, r', hr', rfl⟩⟩
    · simp only [Outcome.bound?_eq_some.2 ⟨rfl, hv⟩, Outcome.bound?_eq_some.2 ⟨rfl, hw⟩]
      refine run_bind_eq_ok.2 ⟨(a, b), _, ?_, rfl⟩
      rw [run_lift, (integerBounds_eq_ok hv hw).2 ⟨ha, hb⟩]

/-- A guard is decided when it comes to a truth value. -/
theorem guardValue_eq_ok {condition : Expr} {l : Option Location} {s t : State} {b : Bool} :
    guardValue condition l s = (.ok (some b), t) ↔ ∃ r,
      s.toDefinitions.resolve condition s.registry = (.ok (.constant (.number (.truth b))), r) ∧
      t = { s with registry := r } := by
  unfold guardValue
  constructor
  · intro h
    obtain ⟨outcome, u, hu, h⟩ := run_bind_eq_ok.1 h
    cases outcome with
    | error e => cases h
    | ok o =>
      obtain ⟨r, hr, rfl⟩ := refer_eq.1 (unlessUnresolved_eq_ok.1 hu)
      cases hv : o.number? with
      | none => simp only [hv] at h; cases h
      | some v =>
        simp only [hv] at h
        cases v with
        | truth b' =>
          cases h
          unfold Outcome.number? at hv
          split at hv
          · cases hv; exact ⟨r, hr, rfl⟩
          · cases hv
        | int i =>
          dsimp only at h
          cases ht : (Number.int i).text? <;> rw [ht] at h <;> cases h
        | real x =>
          dsimp only at h
          cases ht : (Number.real x).text? <;> rw [ht] at h <;> cases h
  · rintro ⟨r, hr, rfl⟩
    exact run_bind_eq_ok.2 ⟨.ok (.constant (.number (.truth b))), _,
      unlessUnresolved_eq_ok.2 (refer_eq.2 ⟨r, hr, rfl⟩), rfl⟩

/-! ## Later states -/

variable {s s' t : State}

theorem comesTo_of_resolve (hs : s.registry.WellFormed) (ht : t.registry.WellFormed)
    (hrules : s.toDefinitions.Within t.toDefinitions) {e : Expr} (he : e.SingleCells) {v : Number}
    {r : Registry} (hv : s.toDefinitions.resolve e s.registry = (.ok (.constant (.number v)), r))
    (hr : r.Within t.registry) : t.ComesTo e v :=
  Definitions.resolve_mono hrules ht he hs hv hr

/-- Bounds that are decided are the bounds in every later state. -/
theorem loopBounds_bound {lower upper : Expr} {l : Option Location} {a b : Int}
    (h : loopBounds lower upper l s = (.ok (some (a, b)), s')) (hs : s.registry.WellFormed)
    (ht : t.registry.WellFormed) (hle : s'.Within t) (hlower : lower.SingleCells)
    (hupper : upper.SingleCells) : t.Bound lower a ∧ t.Bound upper b := by
  obtain ⟨v, w, r, r', hv, hw, ha, hb, rfl⟩ := loopBounds_eq_ok.1 h
  have hr := (Definitions.resolve_grows _ lower Definitions.grows_any).of_eq hv hs
  have hr' := (Definitions.resolve_grows _ upper Definitions.grows_any).of_eq hw hr.wellFormed
  refine ⟨⟨v, ?_, ha⟩, ⟨w, ?_, hb⟩⟩
  · exact comesTo_of_resolve hs ht hle.rules hlower hv (hr'.within.trans hle.registry)
  · exact Definitions.resolve_mono hle.rules ht hupper hr.wellFormed hw hle.registry

/-- A guard that is decided has its truth value in every later state. -/
theorem guardValue_guard {condition : Expr} {l : Option Location} {b : Bool}
    (h : guardValue condition l s = (.ok (some b), s')) (hs : s.registry.WellFormed)
    (ht : t.registry.WellFormed) (hle : s'.Within t) (hcondition : condition.SingleCells) :
    t.Guard condition b := by
  obtain ⟨r, hr, rfl⟩ := guardValue_eq_ok.1 h
  exact comesTo_of_resolve hs ht hle.rules hcondition hr hle.registry

/-! ## Growth -/

variable {K : String → Prop}

open Definitions (RefersIn)

theorem loopBounds_refers {lower upper : Expr} (l : Option Location)
    (hlower : RefersIn K lower.references) (hupper : RefersIn K upper.references) :
    Refers K (loopBounds lower upper l) := by
  unfold loopBounds
  refine (Refers.unlessUnresolved (.refer fun d => ?_)).bind fun outcomes => ?_
  · refine (Definitions.resolve_grows d lower hlower).bind fun _ => ?_
    exact (Definitions.resolve_grows d upper hupper).bind fun _ => .pure _
  · split
    · exact .pure _
    · split
      · exact (Refers.lift _).bind fun _ => .pure _
      · exact .pure _

theorem guardValue_refers {condition : Expr} (l : Option Location)
    (hcondition : RefersIn K condition.references) : Refers K (guardValue condition l) := by
  unfold guardValue
  refine (Refers.unlessUnresolved (.refer fun d =>
    Definitions.resolve_grows d condition hcondition)).bind fun outcome => ?_
  split
  · exact .pure _
  · split
    · exact .pure _
    · exact .pure _
    · split
      · exact .throw _
      · exact .throw _

end PlateModel
