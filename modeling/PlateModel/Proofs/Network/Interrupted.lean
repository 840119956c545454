import PlateModel.Proofs.Network.Runs

/-!
# Conditioning that is interrupted

Conditioning and deconditioning in place treat one name after another and stop at the first that
cannot be treated. They do not take back what they have done until then. So after a failure the
network is the one that the names in front of the failing one lead to, and this one and those behind
it have no effect.

* `Network.steps`: one step for each element of a list, up to the first that fails.
* `Network.get?_steps_observe`, `Network.get?_steps_forget` and the like: what steps leave.
* `Network.perform_interrupted`: what a failed call leaves, and when that is nothing new.
-/

namespace PlateModel.Network

/-! ## Steps along a list -/

/-- One step for each element of a list, up to the first that fails. -/
def steps {α : Type} (f : Network → α → Except Fault Network) :
    Network → List α → Network × Option Fault
  | n, [] => (n, none)
  | n, a :: rest =>
    match f n a with
    | .ok m => steps f m rest
    | .error e => (n, some e)

section Steps

variable {α : Type} {f : Network → α → Except Fault Network} {n m : Network} {a : α} {xs : List α}

theorem steps_cons_eq_none : steps f n (a :: xs) = (m, none) ↔
    ∃ n', f n a = .ok n' ∧ steps f n' xs = (m, none) := by
  rw [steps]
  cases f n a with
  | ok n' => exact ⟨fun h => ⟨n', rfl, h⟩, fun ⟨_, h, k⟩ => by cases h; exact k⟩
  | error e => exact ⟨nofun, nofun⟩

/-- Where steps stop, those before have been made and the next one fails. -/
theorem steps_eq_some {e : Fault} : ∀ {xs : List α} {n : Network}, steps f n xs = (m, some e) →
    ∃ pre a post, xs = pre ++ a :: post ∧ steps f n pre = (m, none) ∧ f m a = .error e
  | [], n, h => by cases h
  | a :: xs, n, h => by
    rw [steps] at h
    cases ha : f n a with
    | error e' =>
      rw [ha] at h
      cases h
      exact ⟨[], a, xs, rfl, rfl, ha⟩
    | ok n' =>
      rw [ha] at h
      obtain ⟨pre, b, post, rfl, hpre, hb⟩ := steps_eq_some h
      exact ⟨a :: pre, b, post, rfl, steps_cons_eq_none.2 ⟨n', ha, hpre⟩, hb⟩

theorem steps_singleton {e : Fault} (h : f n a = .error e) : steps f n [a] = (n, some e) := by
  rw [steps, h]

/-- Steps that each change nothing change nothing together. -/
theorem steps_fixed (hfixed : ∀ a ∈ xs, ∀ n', f n a = .ok n' → n' = n)
    (h : steps f n xs = (m, none)) : m = n := by
  induction xs with
  | nil => cases h; rfl
  | cons a xs ih =>
    obtain ⟨n', ha, hrest⟩ := steps_cons_eq_none.1 h
    obtain rfl := hfixed a (List.mem_cons_self ..) n' ha
    exact ih (fun b hb => hfixed b (List.mem_cons_of_mem a hb)) hrest

end Steps

/-! ## Conditioning by steps -/

variable {n m : Network} {x y : String} {value : Value}

/-- Observes a value of a vertex. -/
def observeOne (n : Network) (p : String × Value) : Except Fault Network := do
  let (i, _) ← n.stochasticVertex p.1 (.conditionDeterministic p.1)
  return n.observe i p.1 p.2

/-- Stops observing a vertex. -/
def forgetOne (n : Network) (x : String) : Except Fault Network := do
  match ← n.stochasticVertex x (.deconditionDeterministic x) with
  | (_, false) => throw (.network (.notObserved x))
  | (i, true) => return n.forget i x

theorem observeAll_eq_steps : ∀ {observations : List (String × Value)} {n : Network},
    ((n.observeAll observations).network, (n.observeAll observations).fault) =
      steps observeOne n observations
  | [], n => rfl
  | (x, value) :: rest, n => by
    rw [observeAll, steps, observeOne]
    cases n.stochasticVertex x (.conditionDeterministic x) with
    | error e => rfl
    | ok r => exact observeAll_eq_steps

theorem forgetAll_eq_steps : ∀ {names : List String} {n : Network},
    ((n.forgetAll names).network, (n.forgetAll names).fault) = steps forgetOne n names
  | [], n => rfl
  | x :: rest, n => by
    rw [forgetAll, steps, forgetOne]
    cases n.stochasticVertex x (.deconditionDeterministic x) with
    | error e => rfl
    | ok r =>
      obtain ⟨i, _ | _⟩ := r
      · rfl
      · exact forgetAll_eq_steps

/-- What a call answers that makes steps. -/
def answered (r : Network × Option Fault) : Except Fault Answer × Network :=
  (match r.2 with
    | none => .ok .done
    | some e => .error e, r.1)

theorem answered_eq_error {r : Network × Option Fault} {e : Fault} :
    answered r = (.error e, m) ↔ r = (m, some e) := by
  obtain ⟨n, _ | e'⟩ := r <;> simp [answered, and_comm]

theorem answered_of_none {r : Network × Option Fault} (h : r = (m, none)) :
    answered r = (.ok .done, m) := by rw [h]; rfl

theorem perform_condition (observations : List (String × Value)) (n : Network) :
    (Call.condition observations).perform n = answered (steps observeOne n observations) := by
  rw [← observeAll_eq_steps, Call.perform, Conditioning.network?, answered]
  cases (n.observeAll observations).fault <;> rfl

theorem perform_decondition (names : Option (List String)) (n : Network) :
    (Call.decondition names).perform n =
      answered (steps forgetOne n (names.getD n.observedNames)) := by
  rw [← forgetAll_eq_steps, Call.perform, forgetSome, Conditioning.network?, answered]
  cases (n.forgetAll (names.getD n.observedNames)).fault <;> rfl

/-! ## What steps leave -/

/-- Whether the vertex of a name is observed. -/
def observed? (n : Network) (x : String) : Option Bool :=
  (n.skeleton.number? x).bind (n.observations.observed[·]?)

/-- A vertex is observed with a value. -/
def Observes (n : Network) (x : String) (value : Value) : Prop :=
  n.observed? x = some true ∧ n.observations.values.get? x = some value

/-- The number of a vertex belongs to one name only. -/
theorem number?_injective {s : Skeleton} {i : Nat} (hx : s.number? x = some i)
    (hy : s.number? y = some i) : x = y := by
  obtain ⟨_, hx, -⟩ := List.findIdx?_eq_some_iff_getElem.1 hx
  obtain ⟨_, hy, -⟩ := List.findIdx?_eq_some_iff_getElem.1 hy
  exact (of_decide_eq_true hx).symm.trans (of_decide_eq_true hy)

/-- Where the observation of one vertex is set, that of the others stays. -/
theorem observed?_set {i : Nat} {b c : Bool} {values : Assoc Value}
    (hi : n.skeleton.number? x = some i) (hb : n.observations.observed[i]? = some b) :
    observed? { n with observations := ⟨n.observations.observed.set i c, values⟩ } y =
      if y = x then some c else n.observed? y := by
  have hlt := (List.getElem?_eq_some_iff.1 hb).1
  by_cases hyx : y = x
  · rw [if_pos hyx, hyx]
    simp [observed?, hi, hlt]
  · rw [if_neg hyx]
    cases hj : n.skeleton.number? y with
    | none => simp only [observed?, hj, Option.bind_none]
    | some j =>
      have hij : i ≠ j := fun heq => hyx (number?_injective hj (heq ▸ hi))
      simp only [observed?, hj, Option.bind_some, List.getElem?_set_ne hij]

/-- A network differs from another one in what is observed of a vertex only. -/
structure Changes (n m : Network) (x : String) (observed : Bool) (value : Option Value) : Prop where
  observed? : ∀ y, m.observed? y = if y = x then some observed else n.observed? y
  get? : ∀ y, m.observations.values.get? y =
    if y = x then value else n.observations.values.get? y

theorem changes_observeOne (n m : Network) (p : String × Value) (h : observeOne n p = .ok m) :
    n.Changes m p.1 true (some p.2) := by
  obtain ⟨⟨i, b⟩, hv, h⟩ := bind_eq_ok.1 h
  cases h
  obtain ⟨hi, -, hb⟩ := stochasticVertex_eq_ok.1 hv
  exact ⟨fun y => observed?_set hi hb, fun y => Assoc.get?_put ..⟩

theorem forgetOne_eq_ok : forgetOne n x = .ok m ↔ ∃ i,
    n.stochasticVertex x (.deconditionDeterministic x) = .ok (i, true) ∧ m = n.forget i x := by
  rw [forgetOne, bind_eq_ok]
  constructor
  · rintro ⟨⟨i, _ | _⟩, hv, h⟩
    · cases h
    · cases h
      exact ⟨i, hv, rfl⟩
  · rintro ⟨i, hv, rfl⟩
    exact ⟨(i, true), hv, rfl⟩

theorem changes_forgetOne (n m : Network) (x : String) (h : forgetOne n x = .ok m) :
    n.Changes m (id x) false none := by
  obtain ⟨i, hv, rfl⟩ := forgetOne_eq_ok.1 h
  obtain ⟨hi, -, hb⟩ := stochasticVertex_eq_ok.1 hv
  exact ⟨fun y => observed?_set hi hb, fun y => Assoc.get?_erase ..⟩

theorem observed?_of_forgetOne (h : forgetOne n x = .ok m) : n.observed? x = some true := by
  obtain ⟨i, hv, -⟩ := forgetOne_eq_ok.1 h
  obtain ⟨hi, -, hb⟩ := stochasticVertex_eq_ok.1 hv
  rw [observed?, hi, Option.bind_some, hb]

/-- Observing a vertex again with the value that it has changes nothing. -/
theorem eq_of_observeOne {p : String × Value} (hp : n.Observes p.1 p.2)
    (h : observeOne n p = .ok m) : m = n := by
  obtain ⟨⟨i, b⟩, hv, h⟩ := bind_eq_ok.1 h
  cases h
  obtain ⟨hi, -, -⟩ := stochasticVertex_eq_ok.1 hv
  obtain ⟨ho, hvalue⟩ := hp
  rw [observed?, hi, Option.bind_some] at ho
  rw [observe, set_observed ho, Assoc.put_of_get? hvalue]

section Changing

variable {α : Type} {f : Network → α → Except Fault Network} {key : α → String} {b : Bool}
  {value : α → Option Value} {n m : Network} {y : String}

/-- Steps change what is observed of the vertices that they are about. -/
theorem observed?_steps (hf : ∀ n m a, f n a = .ok m → Changes n m (key a) b (value a)) :
    ∀ {xs : List α} {n : Network}, steps f n xs = (m, none) →
      m.observed? y = if y ∈ xs.map key then some b else n.observed? y
  | [], n, h => by cases h; rfl
  | a :: xs, n, h => by
    obtain ⟨n', ha, hrest⟩ := steps_cons_eq_none.1 h
    rw [observed?_steps hf hrest, (hf _ _ _ ha).observed?]
    by_cases hxs : y ∈ xs.map key <;> by_cases hya : y = key a <;> simp [hxs, hya]

theorem get?_steps_of_not_mem (hf : ∀ n m a, f n a = .ok m → Changes n m (key a) b (value a)) :
    ∀ {xs : List α} {n : Network}, steps f n xs = (m, none) → y ∉ xs.map key →
      m.observations.values.get? y = n.observations.values.get? y
  | [], n, h, _ => by cases h; rfl
  | a :: xs, n, h, hy => by
    obtain ⟨n', ha, hrest⟩ := steps_cons_eq_none.1 h
    rw [List.map_cons, List.mem_cons, not_or] at hy
    rw [get?_steps_of_not_mem hf hrest hy.2, (hf _ _ _ ha).get?, if_neg hy.1]

/-- Of the vertices that steps are about the values are those of the steps, if no vertex is treated
twice. -/
theorem get?_steps (hf : ∀ n m a, f n a = .ok m → Changes n m (key a) b (value a)) {a : α} :
    ∀ {xs : List α} {n : Network}, steps f n xs = (m, none) → (xs.map key).Nodup → a ∈ xs →
      m.observations.values.get? (key a) = value a
  | c :: xs, n, h, hnodup, ha => by
    obtain ⟨n', hc, hrest⟩ := steps_cons_eq_none.1 h
    obtain ⟨hfresh, hnodup⟩ := List.nodup_cons.1 hnodup
    rcases List.mem_cons.1 ha with rfl | ha
    · rw [get?_steps_of_not_mem hf hrest hfresh, (hf _ _ _ hc).get?, if_pos rfl]
    · exact get?_steps hf hrest hnodup ha

end Changing

/-! ## Interrupted calls -/

/-- Conditions on vertices of different names change nothing if and only if all of them were
observed with the same values before. -/
theorem steps_observe_eq_self {observations : List (String × Value)}
    (hnodup : (observations.map (·.1)).Nodup) (h : steps observeOne n observations = (m, none)) :
    m = n ↔ ∀ p ∈ observations, n.Observes p.1 p.2 := by
  constructor
  · rintro rfl p hp
    refine ⟨?_, get?_steps changes_observeOne h hnodup hp⟩
    rw [observed?_steps changes_observeOne h, if_pos (List.mem_map_of_mem hp)]
  · exact fun hall => steps_fixed (fun p hp _ hok => eq_of_observeOne (hall p hp) hok) h

/-- Only when no vertex is treated does deconditioning change nothing. -/
theorem steps_forget_eq_self {names : List String} (h : steps forgetOne n names = (m, none)) :
    m = n ↔ names = [] := by
  constructor
  · rintro rfl
    cases names with
    | nil => rfl
    | cons x rest =>
      obtain ⟨n', hx, -⟩ := steps_cons_eq_none.1 h
      have hafter := observed?_steps (y := x) changes_forgetOne h
      rw [if_pos (by simp), observed?_of_forgetOne hx] at hafter
      cases hafter
  · rintro rfl
    cases h
    rfl

/-- A call that conditions or deconditions in place and fails has treated the names in front of one
that cannot be treated, and no others: the network is the one that the call for those in front leads
to, and there the call for the next one fails in the same way. Nothing is taken back, so the network
is as before only if the names in front were observed with the same values already, or if there are
no names to be forgotten in front. -/
theorem perform_interrupted (n m : Network) (e : Fault) :
    (∀ observations, (Call.condition observations).perform n = (.error e, m) →
      ∃ front x value rest, observations = front ++ (x, value) :: rest ∧
        (Call.condition front).perform n = (.ok .done, m) ∧
        (Call.condition [(x, value)]).perform m = (.error e, m) ∧
        ((observations.map (·.1)).Nodup → (m = n ↔ ∀ p ∈ front, n.Observes p.1 p.2))) ∧
    ∀ names, (Call.decondition names).perform n = (.error e, m) →
      ∃ front x rest, names.getD n.observedNames = front ++ x :: rest ∧
        (Call.decondition (some front)).perform n = (.ok .done, m) ∧
        (Call.decondition (some [x])).perform m = (.error e, m) ∧
        (m = n ↔ front = []) := by
  constructor
  · intro observations h
    rw [perform_condition, answered_eq_error] at h
    obtain ⟨front, ⟨x, value⟩, rest, rfl, hfront, hx⟩ := steps_eq_some h
    refine ⟨front, x, value, rest, rfl, ?_, ?_, fun hnodup => ?_⟩
    · rw [perform_condition, answered_of_none hfront]
    · rw [perform_condition, answered_eq_error, steps_singleton hx]
    · rw [List.map_append] at hnodup
      exact steps_observe_eq_self hnodup.of_append_left hfront
  · intro names h
    rw [perform_decondition, answered_eq_error] at h
    obtain ⟨front, x, rest, hnames, hfront, hx⟩ := steps_eq_some h
    refine ⟨front, x, rest, hnames, ?_, ?_, steps_forget_eq_self hfront⟩
    · rw [perform_decondition, Option.getD_some, answered_of_none hfront]
    · rw [perform_decondition, Option.getD_some, answered_eq_error, steps_singleton hx]

/-- A network with one stochastic vertex. -/
def solitary : Network := (empty none).after [.stochastic "a" .missing none false .missing]

/-- The network with the vertex observed. -/
def solitaryObserved : Network := solitary.after [.condition [("a", .number (.int 1))]]

/-- The call fails at `b`, and what has been done for `a` changes something; the call that forgets
`a` twice fails the second time. -/
theorem perform_interrupted_solitary :
    (∃ front x value rest, [("a", .number (.int 1)), ("b", .number (.int 2))] =
        front ++ (x, value) :: rest ∧
      (Call.condition front).perform solitary = (.ok .done, solitaryObserved) ∧
      (Call.condition [(x, value)]).perform solitaryObserved =
        (.error (.network (.unknownVertex "b")), solitaryObserved) ∧
      (solitaryObserved = solitary ↔ ∀ p ∈ front, solitary.Observes p.1 p.2)) ∧
    ∃ front x rest, ["a", "a"] = front ++ x :: rest ∧
      (Call.decondition (some front)).perform solitaryObserved = (.ok .done, solitary) ∧
      (Call.decondition (some [x])).perform solitary =
        (.error (.network (.notObserved "a")), solitary) ∧
      (solitary = solitaryObserved ↔ front = []) := by
  obtain ⟨front, x, value, rest, h, hfront, hx, hsame⟩ :=
    (perform_interrupted solitary solitaryObserved (.network (.unknownVertex "b"))).1
      [("a", .number (.int 1)), ("b", .number (.int 2))] rfl
  exact ⟨⟨front, x, value, rest, h, hfront, hx, hsame (by decide)⟩,
    (perform_interrupted solitaryObserved solitary (.network (.notObserved "a"))).2
      (some ["a", "a"]) rfl⟩

/-- The vertex `a` stays observed, though the call fails because there is no vertex `b`; and it is
no longer observed after a call that fails because it lists `a` twice. -/
theorem failed_calls_change :
    (Call.condition [("a", .number (.int 1)), ("b", .number (.int 2))]).perform solitary =
        (.error (.network (.unknownVertex "b")), solitaryObserved) ∧
      (Call.decondition (some ["a", "a"])).perform solitaryObserved =
        (.error (.network (.notObserved "a")), solitary) ∧
      solitary.observations.observed = [false] ∧ solitaryObserved.observations.observed = [true] ∧
      solitary.observations.values.get? "a" = none ∧
      solitaryObserved.observations.values.get? "a" = some (.number (.int 1)) :=
  ⟨rfl, rfl, rfl, rfl, rfl, rfl⟩

end PlateModel.Network
