import PlateModel.Proofs.Network.Forks

/-!
# Conditioning follows the last writer

Calls that condition and decondition say of names which value they are to have, or that they are to
have none. Whatever such calls are made in sequence, what counts of a name in the end is what was
said of it last; of a name that nothing was said of, it is what it was in the beginning.

Besides, a network has values of observed vertices only, whatever calls have been made on it.

* `lastWritten`, `Network.written`: what is said last of a name, and what calls say of all names.
* `Network.Rewritten`: what holds of the network after something has been said of names.
* `Network.Kept`: only observed vertices have values; `Kept.perform` says that calls keep this.
-/

namespace PlateModel

/-- The last thing that is said of a name: the value that it is to have, or that it is to have
none. -/
def lastWritten (ws : List (String × Option Value)) (x : String) : Option (Option Value) :=
  ws.reverse.lookup x

theorem lastWritten_append (ws vs : List (String × Option Value)) (x : String) :
    lastWritten (ws ++ vs) x = (lastWritten vs x).or (lastWritten ws x) := by
  rw [lastWritten, List.reverse_append, List.lookup_append]
  rfl

theorem lastWritten_single (x y : String) (v : Option Value) :
    lastWritten [(x, v)] y = if y = x then some v else none := by
  by_cases hyx : y = x <;> simp [lastWritten, hyx]

namespace Network

variable {n m p : Network} {x : String} {ws vs : List (String × Option Value)}

/-! ## What is said last -/

/-- What a call says of names. One that forgets all vertices names those that are observed. -/
def writes (n : Network) : Revision → List (String × Option Value)
  | .condition observations => observations.map fun (x, v) => (x, some v)
  | .decondition names => (names.getD n.observedNames).map fun x => (x, none)

/-- What calls say of names, one call after the other. -/
def written (n : Network) : List Revision → List (String × Option Value)
  | [] => []
  | r :: rs => n.writes r ++ written (r.call.perform n).2 rs

/-- The network after something has been said of names: what was said last counts, and of a name
that nothing was said of, what it was before. -/
structure Rewritten (n m : Network) (ws : List (String × Option Value)) : Prop where
  skeleton : m.skeleton = n.skeleton
  observed? : ∀ x, m.observed? x = ((lastWritten ws x).map Option.isSome).or (n.observed? x)
  get? : ∀ x, m.observations.values.get? x =
    (lastWritten ws x).getD (n.observations.values.get? x)

theorem Rewritten.refl (n : Network) : n.Rewritten n [] := ⟨rfl, fun _ => rfl, fun _ => rfl⟩

theorem Rewritten.trans (h : n.Rewritten m ws) (k : m.Rewritten p vs) :
    n.Rewritten p (ws ++ vs) where
  skeleton := k.skeleton.trans h.skeleton
  observed? x := by
    rw [k.observed?, h.observed?, lastWritten_append]
    cases lastWritten vs x <;> rfl
  get? x := by
    rw [k.get?, h.get?, lastWritten_append]
    cases lastWritten vs x <;> rfl

theorem Changes.rewritten {v : Option Value} (h : n.Changes m x v.isSome v)
    (hskeleton : m.skeleton = n.skeleton) : n.Rewritten m [(x, v)] where
  skeleton := hskeleton
  observed? y := by
    rw [h.observed?, lastWritten_single]
    split <;> rfl
  get? y := by
    rw [h.get?, lastWritten_single]
    split <;> rfl

theorem rewritten_observeOne (n m : Network) (a : String × Value) (h : observeOne n a = .ok m) :
    n.Rewritten m [(a.1, some a.2)] := by
  refine (changes_observeOne n m a h).rewritten ?_
  obtain ⟨_, -, h⟩ := bind_eq_ok.1 h
  cases h
  rfl

theorem rewritten_forgetOne (n m : Network) (x : String) (h : forgetOne n x = .ok m) :
    n.Rewritten m [(x, none)] := by
  refine (changes_forgetOne n m x h).rewritten ?_
  obtain ⟨i, -, rfl⟩ := forgetOne_eq_ok.1 h
  rfl

section Steps

variable {α : Type} {f : Network → α → Except Fault Network} (said : α → String × Option Value)
  (hf : ∀ n m a, f n a = .ok m → Rewritten n m [said a])

include hf

/-- Steps that each say something of a name. -/
theorem rewritten_steps : ∀ {as : List α} {n : Network}, steps f n as = (m, none) →
    n.Rewritten m (as.map said)
  | [], n, h => by cases h; exact .refl m
  | a :: as, n, h => by
    obtain ⟨n', ha, hrest⟩ := steps_cons_eq_none.1 h
    exact (hf n n' a ha).trans (rewritten_steps hrest)

/-- Steps say something of names even if they stop at one that fails. -/
theorem exists_rewritten_steps (as : List α) :
    ∃ ws, n.Rewritten (steps f n as).1 ws := by
  cases h : steps f n as with
  | mk m fault =>
    cases fault with
    | none => exact ⟨_, rewritten_steps said hf h⟩
    | some e =>
      obtain ⟨pre, _, _, -, hpre, -⟩ := steps_eq_some h
      exact ⟨_, rewritten_steps said hf hpre⟩

end Steps

/-- Conditioning and deconditioning succeed if all steps do. -/
theorem condition_eq_ok {observations : List (String × Value)} :
    n.condition observations = .ok m ↔ steps observeOne n observations = (m, none) := by
  rw [← observeAll_eq_steps, condition, Conditioning.network?, Prod.mk.injEq]
  cases (n.observeAll observations).fault <;> simp

theorem decondition_eq_ok {names : Option (List String)} :
    n.decondition names = .ok m ↔ steps forgetOne n (names.getD n.observedNames) = (m, none) := by
  rw [← forgetAll_eq_steps, decondition, forgetSome, Conditioning.network?, Prod.mk.injEq]
  cases (n.forgetAll (names.getD n.observedNames)).fault <;> simp

theorem rewritten_revise {r : Revision} (h : n.revise r = .ok m) : n.Rewritten m (n.writes r) := by
  cases r with
  | condition observations =>
    exact rewritten_steps (fun a => (a.1, some a.2)) rewritten_observeOne (condition_eq_ok.1 h)
  | decondition names =>
    exact rewritten_steps (fun x => (x, none)) rewritten_forgetOne (decondition_eq_ok.1 h)

theorem exists_rewritten_revision (r : Revision) : ∃ ws, n.Rewritten (r.call.perform n).2 ws := by
  cases r with
  | condition observations =>
    rw [Revision.call, perform_condition]
    exact exists_rewritten_steps (fun a => (a.1, some a.2)) rewritten_observeOne observations
  | decondition names =>
    rw [Revision.call, perform_decondition]
    exact exists_rewritten_steps (fun x => (x, none)) rewritten_forgetOne _

theorem perform_of_revise {r : Revision} (h : n.revise r = .ok m) : (r.call.perform n).2 = m := by
  rw [revise_eq, map_eq_ok] at h
  obtain ⟨_, -, hm⟩ := h
  exact hm

/-- Of every name counts what was said of it last. -/
theorem rewritten_foldlM : ∀ {rs : List Revision} {n : Network}, rs.foldlM revise n = .ok m →
    n.Rewritten m (n.written rs)
  | [], n, h => by cases h; exact .refl m
  | r :: rs, n, h => by
    rw [List.foldlM_cons] at h
    obtain ⟨n', hr, hrest⟩ := bind_eq_ok.1 h
    rw [written, perform_of_revise hr]
    exact (rewritten_revise hr).trans (rewritten_foldlM hrest)

/-! ## Values of observed vertices only -/

/-- Only observed vertices have values. -/
def Kept (n : Network) : Prop :=
  ∀ ⦃x value⦄, n.observations.values.get? x = some value → n.observed? x = some true

/-- The vertices of the one skeleton have the same numbers in the other. -/
def KeepsNumbers (s t : Skeleton) : Prop := ∀ ⦃x i⦄, s.number? x = some i → t.number? x = some i

theorem keepsNumbers_refl (s : Skeleton) : KeepsNumbers s s := fun _ _ h => h

theorem kept_empty (capacity : Option Int) : (empty capacity).Kept := nofun

/-- Vertices that are added through another network are not observed in this one. -/
theorem Kept.extend {s : Skeleton} (hn : n.Kept) (hs : KeepsNumbers n.skeleton s) :
    Kept ⟨s, n.observations⟩ := by
  intro x value hx
  obtain ⟨i, hi, ho⟩ := Option.bind_eq_some_iff.1 (hn hx)
  show (s.number? x).bind _ = _
  rw [hs hi]
  exact ho

theorem Kept.rewritten (hn : n.Kept) (h : n.Rewritten m ws) : m.Kept := by
  intro x value hx
  rw [h.get?] at hx
  rw [h.observed?]
  cases hw : lastWritten ws x with
  | none =>
    rw [hw] at hx
    exact hn hx
  | some v =>
    rw [hw, Option.getD_some] at hx
    rw [hx]
    rfl

theorem keepsNumbers_of_addVertex {v : Vertex} (h : n.addVertex v = .ok m) :
    KeepsNumbers n.skeleton m.skeleton := by
  rw [skeleton_of_addVertex h]
  exact fun _ _ => number?_append

theorem Kept.addVertex {v : Vertex} (hn : n.Kept) (h : n.addVertex v = .ok m) : m.Kept := by
  have hnumbers := keepsNumbers_of_addVertex h
  obtain ⟨t, -, h⟩ := bind_eq_ok.1 h
  cases h
  intro x value hx
  obtain ⟨i, hi, ho⟩ := Option.bind_eq_some_iff.1 (hn hx)
  show (t.number? x).bind ((n.observations.observed ++ [false])[·]?) = some true
  rw [hnumbers hi, Option.bind_some,
    List.getElem?_append_left (List.getElem?_eq_some_iff.1 ho).1, ho]

/-- The number of a vertex that has just been added. -/
theorem number?_of_addVertex {v : Vertex} (h : n.addVertex v = .ok m) :
    n.skeleton.number? v.name = none ∧ m.skeleton.number? v.name = some n.size := by
  obtain ⟨t, ht, h⟩ := bind_eq_ok.1 h
  cases h
  obtain ⟨hfresh, -, rfl⟩ := Skeleton.addVertex_eq_ok.1 ht
  have hnone : n.skeleton.number? v.name = none := by
    rw [Skeleton.number?, List.findIdx?_eq_none_iff]
    rintro y hy
    exact decide_eq_false fun heq => hfresh (heq ▸ hy)
  refine ⟨hnone, ?_⟩
  have hnames : Skeleton.names { n.skeleton with vertices := n.skeleton.vertices ++ [v] } =
      n.skeleton.names ++ [v.name] := by simp [Skeleton.names]
  rw [Skeleton.number?] at hnone ⊢
  rw [hnames, List.findIdx?_append, hnone]
  simp [size]

/-- No value can have been kept of a vertex that has just been added. -/
theorem Kept.get?_of_addVertex {v : Vertex} (hn : n.Kept) (h : n.addVertex v = .ok m) :
    m.observations.values.get? v.name = none := by
  have hvalues : m.observations.values = n.observations.values := by
    obtain ⟨_, -, h⟩ := bind_eq_ok.1 h
    cases h
    rfl
  refine Option.eq_none_iff_forall_ne_some.2 fun value hvalue => ?_
  have ho := hn (hvalues ▸ hvalue)
  rw [observed?, (number?_of_addVertex h).1] at ho
  cases ho

/-- The mark of a vertex that is known. -/
theorem isObserved_eq_ok {i : Nat} {b : Bool} :
    n.isObserved i = .ok b ↔ n.observations.observed[i]? = some b := by
  unfold isObserved
  cases n.observations.observed[i]? <;> simp

/-- A vertex that is added is marked as observed or not, and has a value only if it is. -/
theorem Kept.addStochastic (hn : n.Kept) (name : String) (distribution : Value)
    (kernel : Option Generator) (observed : Bool) (value : Value) :
    (n.addStochastic name distribution kernel observed value).2.Kept := by
  unfold Network.addStochastic
  cases hadd : n.addVertex ⟨name, .stochastic distribution kernel⟩ with
  | error e => exact hn
  | ok m =>
    have hm := hn.addVertex hadd
    have hfresh := hn.get?_of_addVertex hadd
    have hnumber := (number?_of_addVertex hadd).2
    dsimp only at hfresh hnumber ⊢
    split
    · exact hm
    · next b hb =>
      intro x w hx
      rw [observed?_set hnumber (isObserved_eq_ok.1 hb)]
      by_cases hxn : x = name
      · subst hxn
        rw [if_pos rfl]
        cases observed with
        | true => rfl
        | false => exact absurd hx (by simp [hfresh])
      · rw [if_neg hxn]
        refine @hm x w ?_
        cases observed <;> cases value <;> simpa [Assoc.get?_put, hxn] using hx

theorem Kept.revision (hn : n.Kept) (r : Revision) : (r.call.perform n).2.Kept := by
  obtain ⟨ws, h⟩ := exists_rewritten_revision (n := n) r
  exact hn.rewritten h

/-- Whatever is called, only observed vertices have values. -/
theorem Kept.perform (hn : n.Kept) (call : Call) : (call.perform n).2.Kept := by
  cases call with
  | stochastic name distribution kernel observed value =>
    exact hn.addStochastic name distribution kernel observed value
  | deterministic name function =>
    simp only [Call.perform]
    split
    · next i m h =>
      obtain ⟨m', hm', h⟩ := bind_eq_ok.1 h
      cases h
      exact hn.addVertex hm'
    · exact hn
  | edge parent child =>
    simp only [Call.perform]
    split
    · next new m h =>
      obtain ⟨⟨t, new'⟩, ht, h⟩ := bind_eq_ok.1 h
      cases h
      obtain ⟨i, j, -, -, ⟨-, rfl, -⟩ | ⟨-, -, rfl, -⟩⟩ := Skeleton.addEdge_eq_ok.1 ht
      · exact hn
      · exact hn.extend (keepsNumbers_refl n.skeleton)
    · exact hn
  | condition observations => exact hn.revision (.condition observations)
  | decondition names => exact hn.revision (.decondition names)

theorem keepsNumbers_revision (n : Network) (r : Revision) :
    KeepsNumbers n.skeleton (r.call.perform n).2.skeleton := by
  rw [skeleton_revision]
  exact keepsNumbers_refl n.skeleton

/-- Calls never take its number from a vertex. -/
theorem keepsNumbers_perform (n : Network) (call : Call) :
    KeepsNumbers n.skeleton (call.perform n).2.skeleton := by
  cases call with
  | stochastic name distribution kernel observed value =>
    simp only [Call.perform, Network.addStochastic]
    cases hadd : n.addVertex ⟨name, .stochastic distribution kernel⟩ with
    | error e => exact keepsNumbers_refl n.skeleton
    | ok m =>
      have hm := keepsNumbers_of_addVertex hadd
      dsimp only
      split <;> exact hm
  | deterministic name function =>
    simp only [Call.perform]
    split
    · next i m h =>
      obtain ⟨m', hm', h⟩ := bind_eq_ok.1 h
      cases h
      exact keepsNumbers_of_addVertex hm'
    · exact keepsNumbers_refl n.skeleton
  | edge parent child =>
    simp only [Call.perform]
    split
    · next new m h =>
      obtain ⟨⟨t, new'⟩, ht, h⟩ := bind_eq_ok.1 h
      cases h
      obtain ⟨i, j, -, -, ⟨-, rfl, -⟩ | ⟨-, -, rfl, -⟩⟩ := Skeleton.addEdge_eq_ok.1 ht <;>
        exact keepsNumbers_refl n.skeleton
    · exact keepsNumbers_refl n.skeleton
  | condition observations => exact keepsNumbers_revision n (.condition observations)
  | decondition names => exact keepsNumbers_revision n (.decondition names)

end Network

end PlateModel
