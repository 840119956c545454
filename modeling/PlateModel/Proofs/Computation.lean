import PlateModel.State.Basic

/-!
# Opening computations that may fail

A computation that may fail is a result; one on a state takes the state to a result and a state. A
sequence of two of them returns if and only if both return, and fails if and only if one of them
does.

* `bind_eq_ok`: sequences of results.
* `run_bind_eq_ok`, `run_bind_eq_error`: sequences of computations on a state.
* `FailsOnly`, `RunFailsOnly`: results and computations on a state that fail in certain ways only.
* `Advances`: a computation takes every state to a later one, in an order on the states.
-/

namespace PlateModel

variable {ε σ α β : Type}

theorem ok_bind (a : α) (f : α → Except ε β) : (.ok a >>= f) = f a := rfl

theorem bind_eq_ok {x : Except ε α} {f : α → Except ε β} {b : β} :
    (x >>= f) = .ok b ↔ ∃ a, x = .ok a ∧ f a = .ok b := by
  cases x with
  | error e => exact ⟨nofun, fun ⟨_, h, _⟩ => nomatch h⟩
  | ok a => exact ⟨fun h => ⟨a, rfl, h⟩, fun ⟨_, h, k⟩ => by cases h; exact k⟩

theorem bind_eq_error {x : Except ε α} {f : α → Except ε β} {e : ε} :
    (x >>= f) = .error e ↔ x = .error e ∨ ∃ a, x = .ok a ∧ f a = .error e := by
  cases x with
  | error e' => exact ⟨fun h => .inl (by cases h; rfl), fun h => h.elim (fun h => by cases h; rfl)
      nofun⟩
  | ok a => exact ⟨fun h => .inr ⟨a, rfl, h⟩, fun h => h.elim nofun
      fun ⟨_, h, k⟩ => by cases h; exact k⟩

theorem map_eq_ok {x : Except ε α} {f : α → β} {b : β} :
    x.map f = .ok b ↔ ∃ a, x = .ok a ∧ f a = b := by
  cases x with
  | error e => exact ⟨nofun, fun ⟨_, h, _⟩ => nomatch h⟩
  | ok a =>
    refine ⟨fun h => ⟨a, rfl, by cases h; rfl⟩, fun ⟨_, h, k⟩ => ?_⟩
    cases h
    exact congrArg Except.ok k

/-! ## On a state -/

section State

variable {m : ExceptT ε (StateM σ) α} {f : α → ExceptT ε (StateM σ) β} {s t : σ}

theorem run_bind (m : ExceptT ε (StateM σ) α) (f : α → ExceptT ε (StateM σ) β) (s : σ) :
    (m >>= f) s = match m s with
      | (.ok a, t) => f a t
      | (.error e, t) => (.error e, t) := by
  simp only [bind, ExceptT.bind, ExceptT.mk, StateT.bind]
  rcases m s with ⟨_ | _, _⟩ <;> rfl

theorem run_bind_of_ok {a : α} (h : m s = (.ok a, t)) : (m >>= f) s = f a t := by
  rw [run_bind, h]

theorem run_bind_of_error {e : ε} (h : m s = (.error e, t)) : (m >>= f) s = (.error e, t) := by
  rw [run_bind, h]

theorem run_bind_eq_ok {b : β} :
    (m >>= f) s = (.ok b, t) ↔ ∃ a u, m s = (.ok a, u) ∧ f a u = (.ok b, t) := by
  rw [run_bind]
  rcases m s with ⟨e | a, u⟩
  · exact ⟨nofun, fun ⟨_, _, h, _⟩ => nomatch h⟩
  · exact ⟨fun h => ⟨a, u, rfl, h⟩, fun ⟨_, _, h, k⟩ => by cases h; exact k⟩

theorem run_bind_eq_error {e : ε} :
    (m >>= f) s = (.error e, t) ↔
      m s = (.error e, t) ∨ ∃ a u, m s = (.ok a, u) ∧ f a u = (.error e, t) := by
  rw [run_bind]
  rcases m s with ⟨e' | a, u⟩
  · refine ⟨fun h => .inl (by cases h; rfl), fun h => ?_⟩
    rcases h with h | ⟨_, _, h, _⟩
    · cases h; rfl
    · cases h
  · exact ⟨fun h => .inr ⟨a, u, rfl, h⟩,
      fun h => h.elim nofun fun ⟨_, _, h, k⟩ => by cases h; exact k⟩

theorem run_pure_eq_ok {a b : α} :
    (pure a : ExceptT ε (StateM σ) α) s = (.ok b, t) ↔ b = a ∧ t = s :=
  ⟨fun h => by cases h; exact ⟨rfl, rfl⟩, fun ⟨ha, ht⟩ => by rw [ha, ht]; rfl⟩

theorem run_lift (x : Except ε α) (s : σ) :
    (liftM x : ExceptT ε (StateM σ) α) s = (x, s) := rfl

theorem run_get (s : σ) : (get : ExceptT ε (StateM σ) σ) s = (.ok s, s) := rfl

theorem run_set (s t : σ) : (set t : ExceptT ε (StateM σ) PUnit) s = (.ok ⟨⟩, t) := rfl

end State

/-! ## Ways to fail -/

/-- If a result is a failure, it is one of certain failures. -/
def FailsOnly (P : ε → Prop) (x : Except ε α) : Prop := ∀ e, x = .error e → P e

/-- Whatever the state, a computation fails only with certain failures. -/
def RunFailsOnly (P : ε → Prop) (m : ExceptT ε (StateM σ) α) : Prop := ∀ s, FailsOnly P (m s).1

section Failing

variable {P : ε → Prop} {x : Except ε α} {m : ExceptT ε (StateM σ) α}

namespace FailsOnly

theorem ok (a : α) : FailsOnly P (.ok a) := nofun

theorem error {e : ε} (h : P e) : FailsOnly P (.error e : Except ε α) := by
  intro e' h'
  cases h'
  exact h

theorem bind {f : α → Except ε β} (hx : FailsOnly P x) (hf : ∀ a, FailsOnly P (f a)) :
    FailsOnly P (x >>= f) := by
  intro e h
  rcases bind_eq_error.1 h with h | ⟨a, -, h⟩
  · exact hx e h
  · exact hf a e h

/-- On a state, the second computation starts from what the first one returns. -/
theorem run_bind {f : α → ExceptT ε (StateM σ) β} {s : σ} (hm : FailsOnly P (m s).1)
    (hf : ∀ a t, m s = (.ok a, t) → FailsOnly P (f a t).1) : FailsOnly P ((m >>= f) s).1 := by
  rw [PlateModel.run_bind]
  rcases hs : m s with ⟨e | a, t⟩
  · exact .error (hm e (by rw [hs]))
  · exact hf a t hs

theorem map {f : α → β} (hx : FailsOnly P x) : FailsOnly P (x.map f) := by
  cases x with
  | ok a => exact .ok _
  | error e => exact .error (hx e rfl)

theorem mapM {f : α → Except ε β} : ∀ {xs : List α}, (∀ a ∈ xs, FailsOnly P (f a)) →
    FailsOnly P (xs.mapM f)
  | [], _ => by
    rw [List.mapM_nil]
    exact .ok []
  | x :: xs, hf => by
    rw [List.mapM_cons]
    refine (hf x (List.mem_cons_self ..)).bind fun y => ?_
    exact (mapM fun a ha => hf a (List.mem_cons_of_mem x ha)).bind fun ys => .ok (y :: ys)

theorem forM {f : α → Except ε PUnit} : ∀ {xs : List α}, (∀ a ∈ xs, FailsOnly P (f a)) →
    FailsOnly P (xs.forM f)
  | [], _ => .ok _
  | x :: _, hf => (hf x (List.mem_cons_self ..)).bind fun _ =>
    forM fun a ha => hf a (List.mem_cons_of_mem x ha)

end FailsOnly

namespace RunFailsOnly

theorem pure (a : α) : RunFailsOnly P (Pure.pure a : ExceptT ε (StateM σ) α) := fun _ => .ok a

theorem throw {e : ε} (h : P e) :
    RunFailsOnly P (MonadExcept.throw e : ExceptT ε (StateM σ) α) := fun _ => .error h

theorem lift (h : FailsOnly P x) : RunFailsOnly P (liftM x : ExceptT ε (StateM σ) α) := fun _ => h

theorem get : RunFailsOnly P (MonadState.get : ExceptT ε (StateM σ) σ) := fun s => .ok s

theorem set (s : σ) : RunFailsOnly P (MonadStateOf.set s : ExceptT ε (StateM σ) PUnit) :=
  fun _ => .ok _

theorem bind {f : α → ExceptT ε (StateM σ) β} (hm : RunFailsOnly P m)
    (hf : ∀ a, RunFailsOnly P (f a)) : RunFailsOnly P (m >>= f) :=
  fun s => (hm s).run_bind fun a t _ => hf a t

theorem mapM {f : α → ExceptT ε (StateM σ) β} : ∀ {xs : List α},
    (∀ a ∈ xs, RunFailsOnly P (f a)) → RunFailsOnly P (xs.mapM f)
  | [], _ => by
    rw [List.mapM_nil]
    exact .pure []
  | x :: xs, hf => by
    rw [List.mapM_cons]
    refine (hf x (List.mem_cons_self ..)).bind fun y => ?_
    exact (mapM fun a ha => hf a (List.mem_cons_of_mem x ha)).bind fun ys => .pure (y :: ys)

theorem forM {f : α → ExceptT ε (StateM σ) PUnit} : ∀ {xs : List α},
    (∀ a ∈ xs, RunFailsOnly P (f a)) → RunFailsOnly P (xs.forM f)
  | [], _ => .pure _
  | x :: _, hf => (hf x (List.mem_cons_self ..)).bind fun _ =>
    forM fun a ha => hf a (List.mem_cons_of_mem x ha)

end RunFailsOnly

end Failing

/-! ## Advancing states -/

/-- Whether it returns or fails, a computation takes every state to a later one. -/
def Advances (le : σ → σ → Prop) (m : ExceptT ε (StateM σ) α) : Prop :=
  ∀ s x t, m s = (x, t) → le s t

namespace Advances

variable {le : σ → σ → Prop} {m : ExceptT ε (StateM σ) α} {f : α → ExceptT ε (StateM σ) β}

theorem pure (refl : ∀ s, le s s) (a : α) :
    Advances le (Pure.pure a : ExceptT ε (StateM σ) α) := by
  intro s x t h
  cases h
  exact refl s

theorem throw (refl : ∀ s, le s s) (e : ε) :
    Advances le (MonadExcept.throw e : ExceptT ε (StateM σ) α) := by
  intro s x t h
  cases h
  exact refl s

theorem lift (refl : ∀ s, le s s) (x : Except ε α) :
    Advances le (liftM x : ExceptT ε (StateM σ) α) := by
  intro s y t h
  cases h
  exact refl s

theorem bind (trans : ∀ {s t u}, le s t → le t u → le s u) (hm : Advances le m)
    (hf : ∀ a, Advances le (f a)) : Advances le (m >>= f) := by
  intro s x t h
  cases x with
  | ok b =>
    obtain ⟨a, u, ha, hb⟩ := run_bind_eq_ok.1 h
    exact trans (hm _ _ _ ha) (hf a _ _ _ hb)
  | error e =>
    rcases run_bind_eq_error.1 h with h | ⟨a, u, ha, hb⟩
    · exact hm _ _ _ h
    · exact trans (hm _ _ _ ha) (hf a _ _ _ hb)

theorem mapM (refl : ∀ s, le s s) (trans : ∀ {s t u}, le s t → le t u → le s u) :
    ∀ {xs : List α}, (∀ a ∈ xs, Advances le (f a)) → Advances le (xs.mapM f)
  | [], _ => by
    rw [List.mapM_nil]
    exact Advances.pure refl []
  | x :: xs, hf => by
    rw [List.mapM_cons]
    refine Advances.bind trans (hf x (List.mem_cons_self ..)) fun y => ?_
    refine Advances.bind trans (mapM refl trans fun a ha => hf a (List.mem_cons_of_mem x ha)) ?_
    exact fun ys => Advances.pure refl (y :: ys)

/-- The steps of a run over a list lie between its start and its end. -/
theorem mapM_steps (refl : ∀ s, le s s) (trans : ∀ {s t u}, le s t → le t u → le s u) :
    ∀ {xs : List α} {ys : List β} {s t : σ}, (∀ a ∈ xs, Advances le (f a)) →
      xs.mapM f s = (.ok ys, t) →
      ∀ p ∈ xs.zip ys, ∃ u v, le s u ∧ f p.1 u = (.ok p.2, v) ∧ le v t
  | [], _, _, _, _, _ => nofun
  | x :: xs, ys, s, t, hf, h => by
    rw [List.mapM_cons] at h
    obtain ⟨y, u, hy, h⟩ := run_bind_eq_ok.1 h
    obtain ⟨ys', v, hys, h⟩ := run_bind_eq_ok.1 h
    cases h
    have hxs : ∀ a ∈ xs, Advances le (f a) := fun a ha => hf a (List.mem_cons_of_mem x ha)
    intro p hp
    rcases List.mem_cons.1 hp with rfl | hp
    · exact ⟨s, u, refl s, hy, mapM refl trans hxs _ _ _ hys⟩
    · obtain ⟨u', v', hu', hstep, hv'⟩ := mapM_steps refl trans hxs hys p hp
      exact ⟨u', v', trans (hf x (List.mem_cons_self ..) _ _ _ hy) hu', hstep, hv'⟩

end Advances

end PlateModel
