import PlateModel.Proofs.Network.LastWriter

/-!
# Networks that have been conditioned

Networks come about by any calls on an empty one and on what is forked from it. Conditioning them
and deconditioning them, in place or copying, then follows simple laws: of every vertex counts what
was said of it last, what is taken back leaves no trace, and no call changes a network that it is
not called on, nor a copying one the network that it is called on.

That nothing is left of what is taken back needs that a network has values of observed vertices
only, which is so whatever calls have been made on it and its forks.

* `Network.exists_steps_observe`, `Network.exists_steps_forget`: when steps succeed.
* `Network.forget_of_observe`: all that has been observed is forgotten without a trace.
* `Network.mentioned`, `Network.foldlM_decondition`: vertices are forgotten in groups as they are
  one after the other.
* `Forks.follow`: calls in sequence, each on the network that the one before has returned.
* `Forks.Sound`, `Sound.after`: what holds of networks after any calls.
* `conditioning_after_calls`: the laws of conditioning.
-/

namespace PlateModel

open Network (Call)

/-- A name is that of a stochastic vertex. -/
def Skeleton.IsSampled (s : Skeleton) (x : String) : Prop :=
  ∃ i, s.number? x = some i ∧ ∃ v, s.vertices[i]? = some v ∧ v.role.isStochastic

namespace Network

variable {n m p : Network} {x : String} {observations : List (String × Value)}
  {names : List String}

/-! ## Steps that succeed -/

/-- A vertex is stochastic, and it is known whether it is observed. -/
theorem stochasticVertex_of_observed? (whenNot : NetworkProblem) {b : Bool}
    (hx : n.skeleton.IsSampled x) (hb : n.observed? x = some b) :
    ∃ i, n.stochasticVertex x whenNot = .ok (i, b) := by
  obtain ⟨i, hi, v, hv, hrole⟩ := hx
  rw [observed?, hi, Option.bind_some] at hb
  exact ⟨i, stochasticVertex_eq_ok.2 ⟨hi, ⟨v, hv, hrole⟩, hb⟩⟩

theorem steps_cons_of_ok {α : Type} {f : Network → α → Except Fault Network} {a : α} {as : List α}
    (h : f n a = .ok m) : steps f n (a :: as) = steps f m as := by
  rw [steps, h]

/-- Values of stochastic vertices can be observed. -/
theorem exists_steps_observe : ∀ {observations : List (String × Value)} {n : Network},
    (∀ a ∈ observations, n.skeleton.IsSampled a.1 ∧ (n.observed? a.1).isSome) →
      ∃ m, steps observeOne n observations = (m, none)
  | [], n, _ => ⟨n, rfl⟩
  | (x, value) :: rest, n, h => by
    obtain ⟨⟨hx, hb⟩, hrest⟩ := List.forall_mem_cons.1 h
    obtain ⟨b, hb⟩ := Option.isSome_iff_exists.1 hb
    obtain ⟨i, hv⟩ := stochasticVertex_of_observed? (.conditionDeterministic x) hx hb
    have hone : observeOne n (x, value) = .ok (n.observe i x value) := bind_eq_ok.2 ⟨_, hv, rfl⟩
    have hwritten := rewritten_observeOne _ _ _ hone
    rw [steps_cons_of_ok hone]
    refine exists_steps_observe fun a ha => ?_
    obtain ⟨ha, hb⟩ := hrest a ha
    rw [hwritten.skeleton, hwritten.observed?]
    exact ⟨ha, by cases lastWritten [(x, some value)] a.1 <;> simp [hb]⟩

/-- Observed vertices can be forgotten, each once. -/
theorem exists_steps_forget : ∀ {names : List String} {n : Network}, names.Nodup →
    (∀ x ∈ names, n.skeleton.IsSampled x ∧ n.observed? x = some true) →
      ∃ m, steps forgetOne n names = (m, none)
  | [], n, _, _ => ⟨n, rfl⟩
  | x :: rest, n, hnodup, h => by
    obtain ⟨hfresh, hnodup⟩ := List.nodup_cons.1 hnodup
    obtain ⟨⟨hx, hb⟩, hrest⟩ := List.forall_mem_cons.1 h
    obtain ⟨i, hv⟩ := stochasticVertex_of_observed? (.deconditionDeterministic x) hx hb
    have hone : forgetOne n x = .ok (n.forget i x) := forgetOne_eq_ok.2 ⟨i, hv, rfl⟩
    have hwritten := rewritten_forgetOne _ _ _ hone
    rw [steps_cons_of_ok hone]
    refine exists_steps_forget hnodup fun y hy => ?_
    have hyx : y ≠ x := fun heq => hfresh (heq ▸ hy)
    rw [hwritten.skeleton, hwritten.observed?, lastWritten_single, if_neg hyx]
    exact hrest y hy

/-! ## What steps leave of marks and values -/

/-- Steps that mark the vertices of some names, all in the same way. -/
theorem marks_steps {α : Type} {f : Network → α → Except Fault Network} {key : α → String}
    {b : Bool} (hf : ∀ n m a, f n a = .ok m → m.skeleton = n.skeleton ∧
      ∃ i, n.skeleton.number? (key a) = some i ∧
        m.observations.observed = n.observations.observed.set i b) (j : Nat) :
    ∀ {as : List α} {n : Network}, steps f n as = (m, none) →
      m.observations.observed[j]? =
        if ∃ a ∈ as, n.skeleton.number? (key a) = some j then
          (n.observations.observed[j]?).map fun _ => b
        else n.observations.observed[j]?
  | [], n, h => by cases h; simp
  | a :: as, n, h => by
    obtain ⟨n', ha, hrest⟩ := steps_cons_eq_none.1 h
    obtain ⟨hskeleton, i, hi, hmarks⟩ := hf n n' a ha
    rw [marks_steps hf j hrest, hskeleton, hmarks, List.getElem?_set']
    simp only [List.exists_mem_cons_iff, hi, Option.some.injEq]
    by_cases hij : i = j <;> by_cases has : ∃ a ∈ as, n.skeleton.number? (key a) = some j <;>
      cases n.observations.observed[j]? <;> simp [hij, has]

theorem values_steps_observe (h : steps observeOne n observations = (m, none)) :
    m.observations.values =
      observations.foldl (fun t (x, value) => t.put x value) n.observations.values := by
  induction observations generalizing n with
  | nil => cases h; rfl
  | cons a rest ih =>
    obtain ⟨n', ha, hrest⟩ := steps_cons_eq_none.1 h
    obtain ⟨⟨i, b⟩, -, ha⟩ := bind_eq_ok.1 ha
    cases ha
    exact ih hrest

theorem values_steps_forget (h : steps forgetOne n names = (m, none)) :
    m.observations.values = names.foldl Assoc.erase n.observations.values := by
  induction names generalizing n with
  | nil => cases h; rfl
  | cons x rest ih =>
    obtain ⟨n', ha, hrest⟩ := steps_cons_eq_none.1 h
    obtain ⟨i, -, rfl⟩ := forgetOne_eq_ok.1 ha
    exact ih hrest

theorem marks_observeOne (n m : Network) (a : String × Value) (h : observeOne n a = .ok m) :
    m.skeleton = n.skeleton ∧ ∃ i, n.skeleton.number? a.1 = some i ∧
      m.observations.observed = n.observations.observed.set i true := by
  obtain ⟨⟨i, b⟩, hv, h⟩ := bind_eq_ok.1 h
  cases h
  exact ⟨rfl, i, (stochasticVertex_eq_ok.1 hv).1, rfl⟩

theorem marks_forgetOne (n m : Network) (x : String) (h : forgetOne n x = .ok m) :
    m.skeleton = n.skeleton ∧ ∃ i, n.skeleton.number? (id x) = some i ∧
      m.observations.observed = n.observations.observed.set i false := by
  obtain ⟨i, hv, rfl⟩ := forgetOne_eq_ok.1 h
  exact ⟨rfl, i, (stochasticVertex_eq_ok.1 hv).1, rfl⟩

/-! ## Forgetting without a trace -/

/-- A stochastic vertex that is known not to be observed. -/
def Latent (n : Network) (x : String) : Prop :=
  n.skeleton.IsSampled x ∧ n.observed? x = some false

/-- What was observed and is forgotten again leaves the network as it was. -/
theorem eq_of_observe_of_forget (hn : n.Kept) (hnodup : (observations.map (·.1)).Nodup)
    (hlatent : ∀ a ∈ observations, n.Latent a.1) (hnames : names.Perm (observations.map (·.1)))
    (hobserve : steps observeOne n observations = (m, none))
    (hforget : steps forgetOne m names = (p, none)) : p = n := by
  have hskeleton : m.skeleton = n.skeleton :=
    (rewritten_steps (fun a => (a.1, some a.2)) rewritten_observeOne hobserve).skeleton
  have hskeleton' : p.skeleton = m.skeleton :=
    (rewritten_steps (fun x => (x, none)) rewritten_forgetOne hforget).skeleton
  have hmarks : p.observations.observed = n.observations.observed := by
    refine List.ext_getElem? fun j => ?_
    rw [marks_steps marks_forgetOne j hforget, marks_steps marks_observeOne j hobserve, hskeleton]
    by_cases hj : ∃ a ∈ observations, n.skeleton.number? a.1 = some j
    · obtain ⟨a, ha, hnumber⟩ := hj
      have ho := (hlatent a ha).2
      rw [observed?, hnumber, Option.bind_some] at ho
      have hj' : ∃ x ∈ names, n.skeleton.number? (id x) = some j :=
        ⟨a.1, hnames.mem_iff.2 (List.mem_map_of_mem ha), hnumber⟩
      rw [if_pos hj', if_pos ⟨a, ha, hnumber⟩, ho]
      rfl
    · have hj' : ¬ ∃ x ∈ names, n.skeleton.number? (id x) = some j := by
        rintro ⟨x, hx, hnumber⟩
        obtain ⟨a, ha, rfl⟩ := List.mem_map.1 (hnames.mem_iff.1 hx)
        exact hj ⟨a, ha, hnumber⟩
      rw [if_neg hj', if_neg hj]
  have hfresh : ∀ a ∈ observations, a.1 ∉ n.observations.values.keys := by
    intro a ha hkey
    obtain ⟨value, hvalue⟩ := Assoc.mem_keys_iff.1 hkey
    have ho := hn hvalue
    rw [(hlatent a ha).2] at ho
    cases ho
  have hvalues : p.observations.values = n.observations.values := by
    have hentries : p.observations.values.entries = n.observations.values.entries := by
      rw [values_steps_forget hforget, values_steps_observe hobserve, Assoc.entries_foldl_erase,
        Assoc.entries_foldl_put hnodup hfresh, List.filter_append,
        List.filter_eq_self.2, List.filter_eq_nil_iff.2, List.append_nil]
      · intro a ha
        simpa using hnames.mem_iff.2 (List.mem_map_of_mem ha)
      · intro a ha
        refine decide_eq_true fun hx => ?_
        obtain ⟨b, hb, hba⟩ := List.mem_map.1 (hnames.mem_iff.1 hx)
        exact hfresh b hb (hba ▸ List.mem_map_of_mem ha)
    exact congrArg Assoc.mk hentries
  obtain ⟨s, os, t⟩ := n
  obtain ⟨s', os', t'⟩ := p
  cases hskeleton'.trans hskeleton
  cases hmarks
  cases hvalues
  rfl

/-- Values of latent vertices can be observed, and what is observed so can be forgotten in any
order; the network is then exactly as it was. -/
theorem forget_of_observe (hn : n.Kept) (hnodup : (observations.map (·.1)).Nodup)
    (hlatent : ∀ a ∈ observations, n.Latent a.1) :
    ∃ m, steps observeOne n observations = (m, none) ∧
      ∀ names, names.Perm (observations.map (·.1)) → steps forgetOne m names = (n, none) := by
  obtain ⟨m, hobserve⟩ := exists_steps_observe (n := n) fun a ha =>
    ⟨(hlatent a ha).1, by rw [(hlatent a ha).2]; rfl⟩
  have hwritten := rewritten_steps (fun a => (a.1, some a.2)) rewritten_observeOne hobserve
  refine ⟨m, hobserve, fun names hnames => ?_⟩
  obtain ⟨p, hforget⟩ := exists_steps_forget (n := m) (hnames.nodup_iff.2 hnodup) fun x hx => by
    obtain ⟨a, ha, rfl⟩ := List.mem_map.1 (hnames.mem_iff.1 hx)
    rw [hwritten.skeleton, observed?_steps changes_observeOne hobserve,
      if_pos (List.mem_map_of_mem ha)]
    exact ⟨(hlatent a ha).1, rfl⟩
  rw [hforget, eq_of_observe_of_forget hn hnodup hlatent hnames hobserve hforget]

/-! ## Forgetting in groups -/

/-- The names that deconditioning in groups mentions. A group that is not given is that of all
vertices that are observed at the time. -/
def mentioned (n : Network) (groups : List (Option (List String))) : List String :=
  (n.written (groups.map .decondition)).map (·.1)

theorem mentioned_cons (n : Network) (group : Option (List String))
    (groups : List (Option (List String))) :
    n.mentioned (group :: groups) = group.getD n.observedNames ++
      ((Call.decondition group).perform n).2.mentioned groups := by
  simp only [mentioned, List.map_cons, written, List.map_append, writes, List.map_map,
    Function.comp_def, List.map_id', Revision.call]

theorem steps_append_eq_none {α : Type} {f : Network → α → Except Fault Network} {as bs : List α} :
    steps f n (as ++ bs) = (p, none) ↔
      ∃ m, steps f n as = (m, none) ∧ steps f m bs = (p, none) := by
  induction as generalizing n with
  | nil => simp [steps]
  | cons a as ih =>
    simp only [List.cons_append, steps_cons_eq_none, ih]
    constructor
    · rintro ⟨n', ha, m, has, hbs⟩
      exact ⟨m, ⟨n', ha, has⟩, hbs⟩
    · rintro ⟨m, ⟨n', ha, has⟩, hbs⟩
      exact ⟨n', ha, m, has, hbs⟩

/-- Vertices can be forgotten in groups as they can be one after the other. -/
theorem foldlM_decondition {groups : List (Option (List String))}
    (h : steps forgetOne n (n.mentioned groups) = (p, none)) :
    (groups.map Revision.decondition).foldlM revise n = .ok p := by
  induction groups generalizing n with
  | nil => cases h; rfl
  | cons group groups ih =>
    rw [mentioned_cons, steps_append_eq_none] at h
    obtain ⟨m, hgroup, hrest⟩ := h
    have hm : n.revise (.decondition group) = .ok m := decondition_eq_ok.2 hgroup
    have hperform : ((Call.decondition group).perform n).2 = m := perform_of_revise hm
    rw [hperform] at hrest
    rw [List.map_cons, List.foldlM_cons]
    exact bind_eq_ok.2 ⟨m, hm, ih hrest⟩

end Network

/-! ## Forks -/

namespace Forks

variable {f g : Forks} {n m : Network} {k j : Nat}

/-- Calls that condition or decondition, in place or copying, each on the network that the one
before has returned; the number of the last network, if all calls succeed. -/
def follow (f : Forks) (k : Nat) : List (Bool × Revision) → Except Fault (Nat × Forks)
  | [] => .ok (k, f)
  | (copying, r) :: rest =>
    match f.revise k copying r with
    | (.ok j, g) => g.follow j rest
    | (.error e, _) => .error e

/-- No two networks own a collection together, and each has values of observed vertices only. -/
structure Sound (f : Forks) : Prop where
  separate : f.Separate
  kept : ∀ ⦃k n⦄, f.get? k = some n → n.Kept

theorem sound_single (capacity : Option Int) : (single capacity).Sound where
  separate := separate_single capacity
  kept k n h := by
    obtain ⟨p, hp, rfl⟩ := Option.map_eq_some_iff.1 h
    obtain rfl : p = ⟨0, 0⟩ := List.mem_singleton.1 (List.mem_of_getElem? hp)
    exact Network.kept_empty capacity

theorem Sound.perform (hf : f.Sound) (k : Nat) (call : Call) : (f.perform k call).2.Sound := by
  refine ⟨hf.separate.perform k call, fun j m hm => ?_⟩
  rw [← get?_networks, (networks_perform hf.separate k call).2, Networks.perform] at hm
  cases hn : f.networks.get? k with
  | none =>
    rw [hn, get?_networks] at hm
    exact hf.kept hm
  | some n =>
    have hperform := (hf.kept ((get?_networks f k).symm.trans hn)).perform call
    simp only [hn, Networks.get?_set] at hm
    split at hm
    · obtain ⟨_, -, rfl⟩ := Option.map_eq_some_iff.1 hm
      exact hperform
    · obtain ⟨p, hp, rfl⟩ := Option.map_eq_some_iff.1 hm
      refine (hf.kept ((get?_networks f j).symm.trans hp)).extend ?_
      rw [Networks.skeleton_of_get? hp, ← Networks.skeleton_of_get? hn]
      exact Network.keepsNumbers_perform n call

theorem Sound.revise (hf : f.Sound) (k : Nat) (copying : Bool) (r : Revision) :
    (f.revise k copying r).2.Sound := by
  cases copying with
  | false => exact hf.perform k r.call
  | true =>
    refine ⟨hf.separate.revise k true r, fun j m hm => ?_⟩
    rw [← get?_networks, (networks_revise hf.separate k true r).2, Networks.revise,
      if_pos rfl] at hm
    have old {j : Nat} {p : Network} (hp : f.networks.get? j = some p) : p.Kept :=
      hf.kept ((get?_networks f j).symm.trans hp)
    split at hm
    · exact old hm
    · next n hn =>
      split at hm
      · next p hp =>
        rw [Networks.get?_push] at hm
        split at hm
        · cases hm
          rw [← Networks.skeleton_of_get? hn, ← Network.skeleton_of_revise hp]
          exact (old hn).rewritten (Network.rewritten_revise hp)
        · exact old hm
      · exact old hm

theorem Sound.after {acts : List Act} (hf : f.Sound) : (f.after acts).Sound := by
  induction acts generalizing f with
  | nil => exact hf
  | cons act acts ih =>
    refine ih ?_
    cases act with
    | perform k call => exact hf.perform k call
    | revise k copying r => exact hf.revise k copying r

/-! ## Calls in sequence -/

/-- Calls in sequence fail as they do on a network alone, or give a network that is as it would be
alone, whether they are in place or copying. -/
theorem follow_of_get? : ∀ (calls : List (Bool × Revision)) {f : Forks} {k : Nat} {n : Network},
    f.Sound → f.get? k = some n →
      match (calls.map (·.2)).foldlM Network.revise n with
      | .ok m => ∃ j g, f.follow k calls = .ok (j, g) ∧ g.get? j = some m
      | .error e => f.follow k calls = .error e
  | [], f, k, n, _, hn => ⟨k, f, rfl, hn⟩
  | (copying, r) :: rest, f, k, n, hf, hn => by
    have hone := Networks.revise_of_get? ((get?_networks f k).trans hn) copying r
    obtain ⟨hanswer, hnetworks⟩ := networks_revise hf.separate k copying r
    rw [← hanswer, ← hnetworks] at hone
    rw [List.map_cons, List.foldlM_cons]
    have hsound := hf.revise k copying r
    cases hr : n.revise r with
    | error e =>
      rw [hr] at hone
      show f.follow k ((copying, r) :: rest) = .error e
      rw [follow]
      generalize f.revise k copying r = out at hone
      obtain ⟨answer, g⟩ := out
      cases hone
      rfl
    | ok m =>
      rw [hr] at hone
      obtain ⟨j, hj, hm⟩ := hone
      rw [get?_networks] at hm
      have hrest := follow_of_get? rest hsound hm
      have hstep : f.follow k ((copying, r) :: rest) = (f.revise k copying r).2.follow j rest := by
        rw [follow]
        generalize f.revise k copying r = out at hj
        obtain ⟨answer, g⟩ := out
        cases hj
        rfl
      rw [hstep]
      exact hrest

theorem follow_of_ok {calls : List (Bool × Revision)} (hf : f.Sound) (hn : f.get? k = some n)
    (h : (calls.map (·.2)).foldlM Network.revise n = .ok m) :
    ∃ j g, f.follow k calls = .ok (j, g) ∧ g.get? j = some m := by
  have hfollow := follow_of_get? calls hf hn
  rwa [h] at hfollow

theorem ok_of_follow {calls : List (Bool × Revision)} (hf : f.Sound) (hn : f.get? k = some n)
    (h : f.follow k calls = .ok (j, g)) :
    ∃ m, g.get? j = some m ∧ (calls.map (·.2)).foldlM Network.revise n = .ok m := by
  have hfollow := follow_of_get? calls hf hn
  cases hm : (calls.map (·.2)).foldlM Network.revise n with
  | error e =>
    rw [hm, h] at hfollow
    cases hfollow
  | ok m =>
    rw [hm, h] at hfollow
    obtain ⟨_, _, heq, hget⟩ := hfollow
    cases heq
    exact ⟨m, hget, rfl⟩

theorem get?_revise (hf : f.Separate) {copying : Bool} (hm : f.get? j = some m)
    (h : copying = true ∨ j ≠ k) (r : Revision) : (f.revise k copying r).2.get? j = some m := by
  rw [← get?_networks, (networks_revise hf k copying r).2]
  exact Networks.get?_revise ((get?_networks f j).trans hm) h r

end Forks

/-- A network that has come about by any calls on an empty one and on its forks, failed calls
included. After calls in sequence that condition and decondition it, in place or copying, and that
all succeed, a vertex is observed if and only if what was said of it last is a value, or if nothing
was said of it and it was observed before; its value is the one that was said last, and the one of
before if nothing was said. Values of latent vertices can be observed and forgotten in any order and
any grouping, and the network is then exactly as it was. A copying call changes no network that
there is, and one in place no other network than its own, whether or not they succeed. -/
theorem conditioning_after_calls (capacity : Option Int) (acts : List Forks.Act) (k : Nat)
    (n : Network) (hn : ((Forks.single capacity).after acts).get? k = some n) :
    let f := (Forks.single capacity).after acts
    (∀ (calls : List (Bool × Revision)) j g, f.follow k calls = .ok (j, g) →
      ∃ m, g.get? j = some m ∧ m.skeleton = n.skeleton ∧ ∀ x,
        let last := lastWritten (n.written (calls.map (·.2))) x
        (m.observed? x = some true ↔
          (∃ value, last = some (some value)) ∨ last = none ∧ n.observed? x = some true) ∧
        m.observations.values.get? x = last.getD (n.observations.values.get? x)) ∧
    (∀ (copying : Bool) (observations : List (String × Value))
        (groups : List (Bool × Option (List String))), (observations.map (·.1)).Nodup →
      (∀ a ∈ observations, n.Latent a.1) →
      ((n.observeAll observations).network.mentioned (groups.map (·.2))).Perm
        (observations.map (·.1)) →
      ∃ j g, f.follow k ((copying, .condition observations) ::
          groups.map fun (copying, names) => (copying, .decondition names)) = .ok (j, g) ∧
        g.get? j = some n) ∧
    ∀ copying r j m, f.get? j = some m → copying = true ∨ j ≠ k →
      (f.revise k copying r).2.get? j = some m := by
  intro f
  have hf : f.Sound := (Forks.sound_single capacity).after
  refine ⟨fun calls j g h => ?_, fun copying observations groups hnodup hlatent hmentioned => ?_,
    fun copying r j m hm h => Forks.get?_revise hf.separate hm h r⟩
  · obtain ⟨m, hm, hcalls⟩ := Forks.ok_of_follow hf hn h
    obtain ⟨hskeleton, hobserved, hvalues⟩ := Network.rewritten_foldlM hcalls
    refine ⟨m, hm, hskeleton, fun x => ⟨?_, hvalues x⟩⟩
    rw [hobserved]
    cases lastWritten (n.written (calls.map (·.2))) x with
    | none => simp
    | some value => cases value <;> simp
  · obtain ⟨m, hobserve, hforget⟩ := Network.forget_of_observe (hf.kept hn) hnodup hlatent
    have hcondition := Network.condition_eq_ok.2 hobserve
    have hnetwork : (n.observeAll observations).network = m := by
      rw [← Network.observeAll_eq_steps] at hobserve
      exact congrArg Prod.fst hobserve
    rw [hnetwork] at hmentioned
    have hgroups := Network.foldlM_decondition (hforget _ hmentioned)
    refine Forks.follow_of_ok hf hn ?_
    have hcalls : (groups.map fun (copying, names) => (copying, Revision.decondition names)).map
        (·.2) = (groups.map (·.2)).map Revision.decondition := by simp
    rw [List.map_cons, List.foldlM_cons, hcalls]
    exact bind_eq_ok.2 ⟨m, hcondition, hgroups⟩

/-- Calls that add two stochastic vertices. -/
def addTwo : List Call :=
  [.stochastic "a" .missing none false .missing, .stochastic "b" .missing none false .missing]

/-- Calls in sequence of which the last but one forgets all that is observed. -/
def alternating : List (Bool × Revision) :=
  [(true, .condition [("a", .number (.int 1)), ("b", .number (.int 2))]),
    (false, .decondition none), (true, .condition [("b", .number (.int 3))])]

/-- Only `b` is observed in the end; both vertices can be observed and forgotten again, one of them
by name and the other one with all that are observed; and a copying call leaves the network. -/
theorem conditioning_after_calls_two :
    let f := (Forks.single none).after (addTwo.map (.perform 0))
    let n := (Network.empty none).after addTwo
    f.get? 0 = some n ∧
    (∃ j g m, f.follow 0 alternating = .ok (j, g) ∧ g.get? j = some m ∧
      m.observed? "a" ≠ some true ∧ m.observed? "b" = some true ∧
      m.observations.values.get? "b" = some (.number (.int 3))) ∧
    (∃ j g, f.follow 0 [(false, .condition [("a", .number (.int 1)), ("b", .number (.int 2))]),
      (true, .decondition (some ["b"])), (false, .decondition none)] = .ok (j, g) ∧
        g.get? j = some n) ∧
    (f.revise 0 true (.condition [("a", .number (.int 1))])).2.get? 0 = some n := by
  intro f n
  have hn : f.get? 0 = some n := rfl
  obtain ⟨hlast, hback, hothers⟩ := conditioning_after_calls none (addTwo.map (.perform 0)) 0 n hn
  refine ⟨hn, ?_, ?_, hothers true _ 0 n hn (.inl rfl)⟩
  · obtain ⟨p, hp⟩ : ∃ p, (alternating.map (·.2)).foldlM Network.revise n = .ok p := ⟨_, rfl⟩
    obtain ⟨j, g, hfollow, -⟩ := Forks.follow_of_ok (Forks.sound_single none).after hn hp
    obtain ⟨m, hm, -, hx⟩ := hlast alternating j g hfollow
    have hwritten : n.written (alternating.map (·.2)) =
        [("a", some (.number (.int 1))), ("b", some (.number (.int 2))), ("a", none), ("b", none),
          ("b", some (.number (.int 3)))] := rfl
    have ha : lastWritten (n.written (alternating.map (·.2))) "a" = some none := by
      rw [hwritten]
      rfl
    have hb : lastWritten (n.written (alternating.map (·.2))) "b" =
        some (some (.number (.int 3))) := by
      rw [hwritten]
      rfl
    obtain ⟨hobserved, -⟩ := hx "a"
    obtain ⟨hobserved', hvalue⟩ := hx "b"
    rw [ha] at hobserved
    rw [hb] at hobserved' hvalue
    exact ⟨j, g, m, hfollow, hm, fun h => by simpa using hobserved.1 h,
      hobserved'.2 (.inl ⟨_, rfl⟩), hvalue⟩
  · have hlatent {x : String} (hx : x = "a" ∨ x = "b") : n.Latent x := by
      obtain rfl | rfl := hx
      · exact ⟨⟨0, rfl, _, rfl, rfl⟩, rfl⟩
      · exact ⟨⟨1, rfl, _, rfl, rfl⟩, rfl⟩
    refine hback false [("a", .number (.int 1)), ("b", .number (.int 2))]
      [(true, some ["b"]), (false, none)] (by decide) (fun a ha => hlatent ?_) (.swap "a" "b" [])
    obtain rfl | ha := List.mem_cons.1 ha
    · exact .inl rfl
    · exact .inr (congrArg Prod.fst (List.mem_singleton.1 ha))

end PlateModel
