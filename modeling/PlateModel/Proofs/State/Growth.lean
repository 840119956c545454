import PlateModel.Proofs.Resolution.Growth
import PlateModel.Proofs.Resolution.Order
import PlateModel.State.Seed

/-!
# Compilation lets states grow

A computation on the state adds rules and lets arrays grow; it takes nothing back, whether it
returns or fails.

* `State.Within`: the rules and arrays of the one state are in the other.
* `State.Grows`: how a state may change, for a set of arrays.
* `addLogical_eq_ok`, `addStochastic_eq_ok`: when a rule is added.
* `seeded_of_seed`: a state that data have been bound in holds no rules yet.
-/

namespace PlateModel

namespace State

variable {s t u : State} {K : String → Prop}

/-- The rules of the one state are among those of the other, and its arrays have not outgrown those
of the other. -/
structure Within (s t : State) : Prop where
  rules : s.toDefinitions.Within t.toDefinitions
  registry : s.registry.Within t.registry
  stochastic : ∀ ⦃x g⦄, s.stochastic.get? x = some g → t.stochastic.get? x = some g

theorem Within.refl (s : State) : s.Within s := ⟨.refl _, .refl _, fun _ _ h => h⟩

theorem Within.trans (h : s.Within t) (k : t.Within u) : s.Within u :=
  ⟨h.rules.trans k.rules, h.registry.trans k.registry, fun _ _ hx => k.stochastic (h.stochastic hx)⟩

/-- A state has become another one: rules may have been added, and arrays with names in `K` may have
grown. If there are no more logical rules than before, then they are the same; there is still at
most one for each symbol. -/
structure Grows (K : String → Prop) (s t : State) : Prop where
  rules : s.toDefinitions.Within t.toDefinitions
  rules_eq : t.logical.size ≤ s.logical.size → t.toDefinitions = s.toDefinitions
  keys_nodup : s.logical.keys.Nodup → t.logical.keys.Nodup
  registry : s.registry.Grows K t.registry
  stochastic : ∀ ⦃x g⦄, s.stochastic.get? x = some g → t.stochastic.get? x = some g

theorem Grows.within (h : s.Grows K t) : s.Within t := ⟨h.rules, h.registry.within, h.stochastic⟩

theorem Grows.refl (hs : s.registry.WellFormed) : s.Grows K s :=
  ⟨.refl _, fun _ => rfl, id, .refl hs, fun _ _ h => h⟩

theorem Grows.trans (h : s.Grows K t) (k : t.Grows K u) : s.Grows K u where
  rules := h.rules.trans k.rules
  rules_eq hsize := by
    rw [k.rules_eq (Nat.le_trans hsize h.rules.size_le),
      h.rules_eq (Nat.le_trans k.rules.size_le hsize)]
  keys_nodup hkeys := k.keys_nodup (h.keys_nodup hkeys)
  registry := h.registry.trans k.registry
  stochastic _ _ hx := k.stochastic (h.stochastic hx)

/-! ## Rules -/

/-- What adding a logical rule comes to. -/
theorem addLogical_eq (s : State) (x : Symbol) (rhs : Expr) (l : Option Location) :
    s.addLogical x rhs l =
      if s.stochastic.contains x.name then .error (.model (.twoKinds x.name) l)
      else match s.data.get? x.name with
        | some v =>
          if confirms v rhs then .ok none else .error (.model (.boundByData x.name) l)
        | none =>
          match s.logical.get? x.name with
          | some e => if e.same rhs then .ok none else .error (.model (.redefined x.name e) l)
          | none => .ok (some { s with logical := s.logical.put x.name rhs }) := by
  cases hst : s.stochastic.contains x.name with
  | true => simp only [addLogical, hst, if_true]; rfl
  | false =>
    simp only [addLogical, hst, Bool.false_eq_true, if_false]
    cases s.data.get? x.name with
    | some v => dsimp only; split <;> rfl
    | none =>
      cases s.logical.get? x.name with
      | some e => dsimp only; split <;> rfl
      | none => rfl

/-- When a logical rule is accepted: it repeats the data or a rule that is there, or it is new. -/
theorem addLogical_eq_ok {x : Symbol} {rhs : Expr} {l : Option Location} {o : Option State} :
    s.addLogical x rhs l = .ok o ↔ s.stochastic.contains x.name = false ∧
      ((∃ v, s.data.get? x.name = some v ∧ confirms v rhs ∧ o = none) ∨
      (s.data.get? x.name = none ∧ ∃ e, s.logical.get? x.name = some e ∧ e.same rhs ∧ o = none) ∨
      (s.data.get? x.name = none ∧ s.logical.get? x.name = none ∧
        o = some { s with logical := s.logical.put x.name rhs })) := by
  rw [addLogical_eq]
  cases s.stochastic.contains x.name with
  | true => exact ⟨fun h => (by cases h), fun h => nomatch h.1⟩
  | false =>
    cases s.data.get? x.name with
    | some v =>
      cases hc : confirms v rhs with
      | true => simp [hc, @eq_comm _ none o]
      | false => simp [hc]
    | none =>
      cases s.logical.get? x.name with
      | some e =>
        cases he : e.same rhs with
        | true => simp [he, @eq_comm _ none o]
        | false => simp [he]
      | none => simp [@eq_comm _ _ o]

/-- What adding a stochastic rule comes to. -/
theorem addStochastic_eq (s : State) (x : Symbol) (g : Generator) (l : Option Location) :
    s.addStochastic x g l =
      if s.logical.contains x.name then .error (.model (.twoKinds x.name) l)
      else match s.stochastic.get? x.name with
        | some f =>
          if f.expression.same g.expression then .ok none
          else .error (.model (.resampled x.name f.expression) l)
        | none => .ok (some { s with stochastic := s.stochastic.put x.name g }) := by
  cases hl : s.logical.contains x.name with
  | true => simp only [addStochastic, hl, if_true]; rfl
  | false =>
    simp only [addStochastic, hl, Bool.false_eq_true, if_false]
    cases s.stochastic.get? x.name with
    | some f => dsimp only; split <;> rfl
    | none => rfl

/-- When a stochastic rule is accepted: it repeats a rule that is there, or it is new. -/
theorem addStochastic_eq_ok {x : Symbol} {g : Generator} {l : Option Location} {o : Option State} :
    s.addStochastic x g l = .ok o ↔ s.logical.contains x.name = false ∧
      ((∃ f, s.stochastic.get? x.name = some f ∧ f.expression.same g.expression ∧ o = none) ∨
      (s.stochastic.get? x.name = none ∧
        o = some { s with stochastic := s.stochastic.put x.name g })) := by
  rw [addStochastic_eq]
  cases s.logical.contains x.name with
  | true => exact ⟨fun h => (by cases h), fun h => nomatch h.1⟩
  | false =>
    cases s.stochastic.get? x.name with
    | some f =>
      cases he : f.expression.same g.expression with
      | true => simp [he, @eq_comm _ none o]
      | false => simp [he]
    | none => simp [@eq_comm _ _ o]

theorem grows_addLogical {x : Symbol} {rhs : Expr} {l : Option Location}
    (hs : s.registry.WellFormed) (h : s.addLogical x rhs l = .ok (some t)) : s.Grows K t := by
  rcases addLogical_eq_ok.1 h with ⟨-, ⟨_, _, _, h⟩ | ⟨_, _, _, _, h⟩ | ⟨-, hl, h⟩⟩
  · cases h
  · cases h
  · cases h
    have hsize := Assoc.size_put_of_fresh (v := rhs) hl
    refine ⟨⟨rfl, fun hx => Assoc.get?_put_of_fresh hl hx, ?_⟩, fun hle => ?_,
      Assoc.nodup_put, .refl hs, fun _ _ hx => hx⟩
    · rw [hsize]
      exact Nat.le_succ _
    · dsimp only at hle
      omega

theorem grows_addStochastic {x : Symbol} {g : Generator} {l : Option Location}
    (hs : s.registry.WellFormed) (h : s.addStochastic x g l = .ok (some t)) : s.Grows K t := by
  rcases addStochastic_eq_ok.1 h with ⟨-, ⟨_, _, _, h⟩ | ⟨hf, h⟩⟩
  · cases h
  · cases h
    exact ⟨.refl _, fun _ => rfl, id, .refl hs, fun _ _ hx => Assoc.get?_put_of_fresh hf hx⟩

end State

/-! ## Computations that add rules -/

namespace Compiling

variable {K : String → Prop} {α β : Type}

/-- The order in which computations take the state that add rules and refer to arrays in `K`. -/
def Order (K : String → Prop) (s t : State) : Prop := s.registry.WellFormed → s.Grows K t

/-- A computation adds rules and lets arrays in `K` grow, and does nothing else to the state. -/
def Grows (K : String → Prop) (m : Compiling α) : Prop := Advances (Order K) m

theorem Order.refl (s : State) : Order K s s := State.Grows.refl

theorem Order.trans {s t u : State} (h : Order K s t) (k : Order K t u) : Order K s u :=
  fun hs => (h hs).trans (k (h hs).registry.wellFormed)

theorem Grows.of_eq {m : Compiling α} (hm : Grows K m) {s t : State} {x : Except Fault α}
    (h : m s = (x, t)) (hs : s.registry.WellFormed) : s.Grows K t := hm _ _ _ h hs

theorem Grows.pure (a : α) : Grows K (Pure.pure a : Compiling α) := Advances.pure Order.refl a

theorem Grows.lift (x : Except Fault α) : Grows K (liftM x : Compiling α) :=
  Advances.lift Order.refl x

theorem Grows.bind {m : Compiling α} {f : α → Compiling β} (hm : Grows K m)
    (hf : ∀ a, Grows K (f a)) : Grows K (m >>= f) := Advances.bind Order.trans hm hf

theorem Grows.mapM {f : α → Compiling β} {xs : List α} (hf : ∀ a ∈ xs, Grows K (f a)) :
    Grows K (xs.mapM f) := Advances.mapM Order.refl Order.trans hf

/-! ## Computations that only refer to arrays -/

/-- The order in which computations take the state that do nothing but refer to arrays in `K`. -/
def ReferOrder (K : String → Prop) (s t : State) : Prop :=
  s.registry.WellFormed → s.registry.Grows K t.registry ∧ t = { s with registry := t.registry }

/-- A computation lets arrays in `K` grow, and does nothing else to the state. -/
def Refers (K : String → Prop) (m : Compiling α) : Prop := Advances (ReferOrder K) m

theorem ReferOrder.refl (s : State) : ReferOrder K s s := fun hs => ⟨.refl hs, rfl⟩

theorem ReferOrder.trans {s t u : State} (h : ReferOrder K s t) (k : ReferOrder K t u) :
    ReferOrder K s u := by
  intro hs
  obtain ⟨ht, hst⟩ := h hs
  obtain ⟨hu, htu⟩ := k ht.wellFormed
  refine ⟨ht.trans hu, ?_⟩
  rw [htu, hst]

theorem Refers.of_eq {m : Compiling α} (hm : Refers K m) {s t : State} {x : Except Fault α}
    (h : m s = (x, t)) (hs : s.registry.WellFormed) :
    s.registry.Grows K t.registry ∧ t = { s with registry := t.registry } := hm _ _ _ h hs

theorem Refers.grows {m : Compiling α} (hm : Refers K m) : Grows K m := by
  intro s x t h hs
  obtain ⟨hr, ht⟩ := hm.of_eq h hs
  rw [ht]
  exact ⟨.refl _, fun _ => rfl, id, hr, fun _ _ hx => hx⟩

theorem Refers.pure (a : α) : Refers K (Pure.pure a : Compiling α) :=
  Advances.pure ReferOrder.refl a

theorem Refers.throw (e : Fault) : Refers K (MonadExcept.throw e : Compiling α) :=
  Advances.throw ReferOrder.refl e

theorem Refers.lift (x : Except Fault α) : Refers K (liftM x : Compiling α) :=
  Advances.lift ReferOrder.refl x

theorem Refers.bind {m : Compiling α} {f : α → Compiling β} (hm : Refers K m)
    (hf : ∀ a, Refers K (f a)) : Refers K (m >>= f) := Advances.bind ReferOrder.trans hm hf

theorem Refers.mapM {f : α → Compiling β} {xs : List α} (hf : ∀ a ∈ xs, Refers K (f a)) :
    Refers K (xs.mapM f) := Advances.mapM ReferOrder.refl ReferOrder.trans hf

theorem Refers.forM {f : α → Compiling PUnit} : ∀ {xs : List α}, (∀ a ∈ xs, Refers K (f a)) →
    Refers K (xs.forM f)
  | [], _ => Refers.pure _
  | x :: _, hf => (hf x (List.mem_cons_self ..)).bind fun _ =>
      Refers.forM fun a ha => hf a (List.mem_cons_of_mem x ha)

theorem refer_eq {f : Definitions → Referring α} {s : State} {x : Except Fault α} {t : State} :
    refer f s = (x, t) ↔ ∃ r, f s.toDefinitions s.registry = (x, r) ∧
      t = { s with registry := r } := by
  simp only [refer]
  rcases f s.toDefinitions s.registry with ⟨y, r⟩
  constructor
  · intro h
    cases h
    exact ⟨r, rfl, rfl⟩
  · rintro ⟨_, h, rfl⟩
    cases h
    rfl

theorem Refers.refer {f : Definitions → Referring α} (hf : ∀ d, Referring.Grows K (f d)) :
    Refers K (refer f) := by
  intro s x t h hs
  obtain ⟨r, hr, rfl⟩ := refer_eq.1 h
  exact ⟨(hf _).of_eq hr hs, rfl⟩

/-! ### Postponing -/

theorem unlessUnresolved_eq_ok {m : Compiling α} {s t : State} {a : α} :
    unlessUnresolved m s = (.ok (.ok a), t) ↔ m s = (.ok a, t) := by
  simp only [unlessUnresolved]
  rcases m s with ⟨e | b, u⟩
  · dsimp only
    split
    · exact ⟨nofun, nofun⟩
    · exact ⟨nofun, nofun⟩
  · exact ⟨fun h => by cases h; rfl, fun h => by cases h; rfl⟩

theorem unlessUnresolved_eq_unresolved {m : Compiling α} {s t : State} {e : Fault} :
    unlessUnresolved m s = (.ok (.error e), t) ↔ m s = (.error e, t) ∧ e.isUnresolvedIndex := by
  simp only [unlessUnresolved]
  rcases m s with ⟨e' | b, u⟩
  · dsimp only
    split
    · next he => exact ⟨fun h => by cases h; exact ⟨rfl, he⟩, fun h => by cases h.1; rfl⟩
    · next he => exact ⟨nofun, fun h => by cases h.1; exact absurd h.2 he⟩
  · exact ⟨nofun, nofun⟩

theorem unlessUnresolved_eq_error {m : Compiling α} {s t : State} {e : Fault} :
    unlessUnresolved m s = (.error e, t) ↔ m s = (.error e, t) ∧ e.isUnresolvedIndex = false := by
  simp only [unlessUnresolved]
  rcases m s with ⟨e' | b, u⟩
  · dsimp only
    split
    · next he => exact ⟨nofun, fun h => by cases h.1; rw [he] at h; cases h.2⟩
    · next he =>
      exact ⟨fun h => by cases h; exact ⟨rfl, by simpa using he⟩, fun h => by cases h.1; rfl⟩
  · exact ⟨nofun, nofun⟩

theorem Refers.unlessUnresolved {m : Compiling α} (hm : Refers K m) :
    Refers K (unlessUnresolved m) := by
  intro s x t h
  match x with
  | .ok (.ok a) => exact hm _ _ _ (unlessUnresolved_eq_ok.1 h)
  | .ok (.error e) => exact hm _ _ _ (unlessUnresolved_eq_unresolved.1 h).1
  | .error e => exact hm _ _ _ (unlessUnresolved_eq_error.1 h).1

end Compiling

/-! ## Seeded states -/

namespace State

variable {s t : State}

/-- A state holds data, but no rules yet. -/
structure Seeded (s : State) : Prop where
  wellFormed : s.registry.WellFormed
  logical : s.logical = .empty
  stochastic : s.stochastic = .empty

theorem seeded_empty : Seeded .empty := ⟨Registry.wellFormed_empty, rfl, rfl⟩

theorem Seeded.bind (hs : s.Seeded) {name : String} {d : Datum} (h : s.bind name d = .ok t) :
    t.Seeded := by
  unfold State.bind at h
  split at h
  · obtain ⟨values, -, h⟩ := bind_eq_ok.1 h
    obtain ⟨registry, hregistry, h⟩ := bind_eq_ok.1 h
    cases h
    exact ⟨hs.wellFormed.register hregistry, hs.logical, hs.stochastic⟩
  · cases h
    split
    · exact hs
    · exact ⟨hs.wellFormed, hs.logical, hs.stochastic⟩
  · cases h
    exact hs
  · cases h

/-- Binding data adds no rules. -/
theorem Seeded.seed (hs : s.Seeded) {data : List (String × Datum)}
    (h : State.seed data s = (.ok (), t)) : t.Seeded := by
  induction data generalizing s with
  | nil => cases h; exact hs
  | cons binding data ih =>
    obtain ⟨name, d⟩ := binding
    unfold State.seed at h
    obtain ⟨_, _, hget, h⟩ := run_bind_eq_ok.1 h
    cases hget
    obtain ⟨u, _, hu, h⟩ := run_bind_eq_ok.1 h
    rw [run_lift] at hu
    cases congrArg Prod.snd hu
    obtain ⟨_, _, hset, h⟩ := run_bind_eq_ok.1 h
    cases hset
    exact ih (hs.bind (congrArg Prod.fst hu)) h

theorem seeded_of_seed {data : List (String × Datum)} (h : State.seed data .empty = (.ok (), t)) :
    t.Seeded := seeded_empty.seed h

end State

end PlateModel
