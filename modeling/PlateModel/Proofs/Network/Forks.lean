import PlateModel.Proofs.Network.Interrupted

/-!
# Networks that are forked

A network that is conditioned by a copying call is forked first: the fork has the vertices and edges
of the network in common with it, and copies of its own of what is observed and of the values. All
later calls on either network work in place, on the collections that the network owns.

Here the collections are kept at places of a memory, and a network knows the places of its own. No
two networks own a place together, so a call on one network leaves what is observed in the others
and their values as they are. Forks are therefore what networks are that have their vertices and
edges in common and are otherwise kept by value (`Networks`).

* `Memory`, `Places`, `Forks`: networks that are forked from one another.
* `Forks.perform`, `Forks.revise`: a call in place, and one that conditions or deconditions, in
  place or copying.
* `Forks.Separate`: no two networks own a place together; `Separate.perform` and `Separate.revise`
  say that calls keep this.
* `networks_perform`, `networks_revise`: calls do to forks what they do to networks by value.
-/

namespace PlateModel

open Network (Call Answer)

/-! ## Networks by value -/

/-- A call that conditions or deconditions. -/
inductive Revision
  | condition (observations : List (String × Value))
  | decondition (names : Option (List String))

/-- The call in place. -/
def Revision.call : Revision → Call
  | condition observations => .condition observations
  | decondition names => .decondition names

/-- The network after a call that conditions or deconditions, if it succeeds. -/
def Network.revise (n : Network) : Revision → Except Fault Network
  | .condition observations => n.condition observations
  | .decondition names => n.decondition names

namespace Networks

/-- A call in place on one of the networks. -/
def perform (ns : Networks) (k : Nat) (call : Call) : Except Fault Answer × Networks :=
  match ns.get? k with
  | none => (.error (.evaluation .outOfBounds), ns)
  | some n =>
    let (answer, m) := call.perform n
    (answer, ns.set k m)

/-- A call on one of the networks that conditions or deconditions, in place or copying; gives the
number of the network that the call returns. -/
def revise (ns : Networks) (k : Nat) (copying : Bool) (r : Revision) :
    Except Fault Nat × Networks :=
  if copying then
    match ns.get? k with
    | none => (.error (.evaluation .outOfBounds), ns)
    | some n =>
      match n.revise r with
      | .ok m => (.ok ns.size, ns.push m)
      | .error e => (.error e, ns)
  else
    let (answer, ns) := ns.perform k r.call
    (answer.map fun _ => k, ns)

end Networks

/-! ## Networks by reference -/

/-- The places of the collections that a network owns. -/
structure Places where
  observed : Nat
  values : Nat

/-- What networks own, by place, and the vertices and edges that they have in common. -/
structure Memory where
  skeleton : Skeleton
  observed : List (List Bool)
  values : List (Assoc Value)

namespace Memory

/-- The network that owns some places. -/
def load (μ : Memory) (p : Places) : Network :=
  ⟨μ.skeleton, (μ.observed[p.observed]?).getD [], (μ.values[p.values]?).getD .empty⟩

/-- The memory after the network that owns some places has become another one. -/
def save (μ : Memory) (p : Places) (n : Network) : Memory :=
  ⟨n.skeleton, μ.observed.set p.observed n.observations.observed,
    μ.values.set p.values n.observations.values⟩

/-- The places of copies of what a network owns, and the memory with them. -/
def fork (μ : Memory) (p : Places) : Places × Memory :=
  let n := μ.load p
  (⟨μ.observed.length, μ.values.length⟩, ⟨μ.skeleton, μ.observed ++ [n.observations.observed],
    μ.values ++ [n.observations.values]⟩)

/-- Both collections are in the memory. -/
def Holds (μ : Memory) (p : Places) : Prop :=
  p.observed < μ.observed.length ∧ p.values < μ.values.length

end Memory

/-- Networks that are forked from one another. -/
structure Forks where
  memory : Memory
  places : List Places

namespace Forks

/-- A network by its number. -/
def get? (f : Forks) (k : Nat) : Option Network := (f.places[k]?).map f.memory.load

/-- The networks by value. -/
def networks (f : Forks) : Networks :=
  ⟨f.memory.skeleton, f.places.map fun p => (f.memory.load p).observations⟩

/-- A network without vertices, before there are any forks of it. -/
def single (capacity : Option Int) : Forks := ⟨⟨⟨capacity, [], []⟩, [[]], [.empty]⟩, [⟨0, 0⟩]⟩

/-- A call in place on one of the networks. -/
def perform (f : Forks) (k : Nat) (call : Call) : Except Fault Answer × Forks :=
  match f.places[k]? with
  | none => (.error (.evaluation .outOfBounds), f)
  | some p =>
    let (answer, n) := call.perform (f.memory.load p)
    (answer, { f with memory := f.memory.save p n })

/-- A call on one of the networks that conditions or deconditions, in place or copying; gives the
number of the network that the call returns. A copying call is one in place on a fork, which is lost
if the call fails. -/
def revise (f : Forks) (k : Nat) (copying : Bool) (r : Revision) : Except Fault Nat × Forks :=
  if copying then
    match f.places[k]? with
    | none => (.error (.evaluation .outOfBounds), f)
    | some p =>
      let (q, μ) := f.memory.fork p
      let (answer, n) := r.call.perform (μ.load q)
      match answer with
      | .ok _ => (.ok f.places.length, ⟨μ.save q n, f.places ++ [q]⟩)
      | .error e => (.error e, ⟨μ.save q n, f.places⟩)
  else
    let (answer, f) := f.perform k r.call
    (answer.map fun _ => k, f)

/-- Any call on one of the networks. -/
inductive Act
  | perform (k : Nat) (call : Call)
  | revise (k : Nat) (copying : Bool) (r : Revision)

/-- The networks after a call, whether or not it fails. -/
def act (f : Forks) : Act → Forks
  | .perform k call => (f.perform k call).2
  | .revise k copying r => (f.revise k copying r).2

/-- The networks after a sequence of calls, failed ones included. -/
def after (f : Forks) (acts : List Act) : Forks := acts.foldl act f

/-- Every network owns two collections of the memory, and no two networks own one together. -/
structure Separate (f : Forks) : Prop where
  holds : ∀ p ∈ f.places, f.memory.Holds p
  observed : (f.places.map (·.observed)).Nodup
  values : (f.places.map (·.values)).Nodup

end Forks

/-! ## Loading and saving -/

namespace Memory

variable {μ : Memory} {p q : Places} {n : Network}

theorem load_save (h : μ.Holds p) : (μ.save p n).load p = n := by
  obtain ⟨hobserved, hvalues⟩ := h
  simp [load, save, hobserved, hvalues]

/-- Saving one network leaves what another one owns. -/
theorem load_save_of_ne (hobserved : p.observed ≠ q.observed) (hvalues : p.values ≠ q.values) :
    (μ.save p n).load q = ⟨n.skeleton, (μ.load q).observations⟩ := by
  simp [load, save, List.getElem?_set_ne hobserved, List.getElem?_set_ne hvalues]

theorem Holds.save (h : μ.Holds q) : (μ.save p n).Holds q := by
  simpa [Holds, Memory.save] using h

theorem load_fork (h : μ.Holds q) : (μ.fork p).2.load q = μ.load q := by
  obtain ⟨hobserved, hvalues⟩ := h
  simp [load, fork, List.getElem?_append_left hobserved, List.getElem?_append_left hvalues]

/-- A fork is equal to the network that it is a fork of. -/
theorem load_fork_self : (μ.fork p).2.load (μ.fork p).1 = μ.load p := by simp [load, fork]

theorem holds_fork_self : (μ.fork p).2.Holds (μ.fork p).1 := by simp [Holds, fork]

theorem Holds.fork (h : μ.Holds q) : (μ.fork p).2.Holds q := by
  obtain ⟨hobserved, hvalues⟩ := h
  simp only [Holds, Memory.fork, List.length_append, List.length_singleton]
  omega

end Memory

namespace Network

variable {n m : Network}

theorem skeleton_revision (r : Revision) : (r.call.perform n).2.skeleton = n.skeleton := by
  cases r with
  | condition observations => exact skeleton_observeAll
  | decondition names => exact skeleton_forgetAll

/-- What a call in place does is what the call answers that keeps nothing of a failure. -/
theorem revise_eq (n : Network) (r : Revision) :
    n.revise r = (r.call.perform n).1.map fun _ => (r.call.perform n).2 := by
  cases r with
  | condition observations =>
    simp only [revise, condition, Revision.call, Call.perform, Conditioning.network?]
    cases (n.observeAll observations).fault <;> rfl
  | decondition names =>
    simp only [revise, decondition, Revision.call, Call.perform, Conditioning.network?]
    cases (n.forgetSome names).fault <;> rfl

theorem skeleton_of_revise {r : Revision} (h : n.revise r = .ok m) : m.skeleton = n.skeleton := by
  rw [revise_eq, map_eq_ok] at h
  obtain ⟨_, -, rfl⟩ := h
  exact skeleton_revision r

end Network

/-! ## Networks by value and number -/

namespace Networks

variable {ns : Networks} {n m : Network} {k j : Nat}

theorem get?_set : (ns.set k m).get? j = if k = j then (ns.get? j).map fun _ => m
    else (ns.get? j).map fun n => ⟨m.skeleton, n.observations⟩ := by
  simp only [get?, set, List.getElem?_set']
  split <;> cases ns.observations[j]? <;> rfl

theorem get?_push : (ns.push m).get? j =
    if j = ns.size then some ⟨ns.skeleton, m.observations⟩ else ns.get? j := by
  have hsize : ns.size = ns.observations.length := rfl
  by_cases hj : j = ns.size
  · subst hj
    simp [get?, push, hsize]
  · rw [if_neg hj, get?, get?, push]
    rcases Nat.lt_or_gt_of_ne hj with hlt | hgt
    · rw [List.getElem?_append_left (hsize ▸ hlt)]
    · rw [List.getElem?_eq_none (by simp; omega), List.getElem?_eq_none (by omega)]

theorem lt_size_of_get? (h : ns.get? j = some n) : j < ns.size := by
  obtain ⟨o, ho, -⟩ := Option.map_eq_some_iff.1 h
  exact (List.getElem?_eq_some_iff.1 ho).1

theorem skeleton_of_get? (h : ns.get? j = some n) : n.skeleton = ns.skeleton := by
  obtain ⟨o, -, rfl⟩ := Option.map_eq_some_iff.1 h
  rfl

/-- A call on a network that conditions or deconditions fails as it does on the network alone, or
gives a network that is as it would be alone. -/
theorem revise_of_get? (hn : ns.get? k = some n) (copying : Bool) (r : Revision) :
    match n.revise r with
    | .ok m => ∃ j, (ns.revise k copying r).1 = .ok j ∧ (ns.revise k copying r).2.get? j = some m
    | .error e => (ns.revise k copying r).1 = .error e := by
  cases copying with
  | true =>
    simp only [revise, if_true, hn]
    cases hr : n.revise r with
    | ok m =>
      refine ⟨ns.size, rfl, ?_⟩
      have hskeleton := (Network.skeleton_of_revise hr).trans (skeleton_of_get? hn)
      rw [get?_push, if_pos rfl, ← hskeleton]
    | error e => rfl
  | false =>
    simp only [revise, Bool.false_eq_true, if_false, perform, hn, Network.revise_eq]
    cases (r.call.perform n).1 with
    | ok answer => exact ⟨k, rfl, by rw [get?_set, if_pos rfl, hn]; rfl⟩
    | error e => rfl

/-- A call that conditions or deconditions changes no network but the one that it is called on, and
that one only if it is in place. -/
theorem get?_revise {copying : Bool} (hj : ns.get? j = some n)
    (h : copying = true ∨ j ≠ k) (r : Revision) : (ns.revise k copying r).2.get? j = some n := by
  cases hn : ns.get? k with
  | none => cases copying <;> simp [revise, perform, hn, hj]
  | some p =>
    cases copying with
    | true =>
      simp only [revise, if_true, hn]
      split
      · rw [get?_push, if_neg (Nat.ne_of_lt (lt_size_of_get? hj)), hj]
      · exact hj
    | false =>
      have hjk : k ≠ j := (h.resolve_left Bool.false_ne_true).symm
      simp only [revise, Bool.false_eq_true, if_false, perform, hn]
      rw [get?_set, if_neg hjk, hj, Option.map_some, Network.skeleton_revision,
        skeleton_of_get? hn, ← skeleton_of_get? hj]

end Networks

namespace Forks

variable {f : Forks} {k j : Nat} {n : Network} {p q : Places}

theorem get?_networks (f : Forks) (k : Nat) : f.networks.get? k = f.get? k := by
  simp only [Networks.get?, networks, get?, List.getElem?_map, Option.map_map]
  rfl

/-- Networks of different numbers own different places. -/
theorem Separate.ne (hf : f.Separate) (hp : f.places[k]? = some p) (hq : f.places[j]? = some q)
    (hkj : k ≠ j) : p.observed ≠ q.observed ∧ p.values ≠ q.values := by
  have hlt := (List.getElem?_eq_some_iff.1 hp).1
  have apart {g : Places → Nat} (hg : (f.places.map g).Nodup) : g p ≠ g q := fun heq =>
    hkj ((List.getElem?_inj (by simpa using hlt) hg).1 (by simp [hp, hq, heq]))
  exact ⟨apart hf.observed, apart hf.values⟩

/-! ## Calls in place -/

/-- Saving one of the networks replaces it, and the vertices and edges of all. -/
theorem networks_save (hf : f.Separate) (hp : f.places[k]? = some p) :
    (⟨f.memory.save p n, f.places⟩ : Forks).networks = f.networks.set k n := by
  have observations : f.places.map (fun q => ((f.memory.save p n).load q).observations) =
      (f.places.map fun q => (f.memory.load q).observations).set k n.observations := by
    refine List.ext_getElem? fun j => ?_
    by_cases hjk : k = j
    · subst hjk
      have hlt := (List.getElem?_eq_some_iff.1 hp).1
      have hholds := hf.holds p (List.mem_of_getElem? hp)
      rw [List.getElem?_set_self (by simpa using hlt), List.getElem?_map, hp, Option.map_some,
        Memory.load_save hholds]
    · rw [List.getElem?_set_ne hjk, List.getElem?_map, List.getElem?_map]
      cases hq : f.places[j]? with
      | none => rfl
      | some q =>
        obtain ⟨hobserved, hvalues⟩ := hf.ne hp hq hjk
        rw [Option.map_some, Option.map_some, Memory.load_save_of_ne hobserved hvalues]
  exact congrArg (Networks.mk n.skeleton) observations

theorem Separate.save (hf : f.Separate) : Separate ⟨f.memory.save p n, f.places⟩ :=
  ⟨fun q hq => (hf.holds q hq).save, hf.observed, hf.values⟩

/-- A call in place answers and changes the networks as it does by value. -/
theorem networks_perform (hf : f.Separate) (k : Nat) (call : Call) :
    (f.perform k call).1 = (f.networks.perform k call).1 ∧
      (f.perform k call).2.networks = (f.networks.perform k call).2 := by
  rw [Networks.perform, get?_networks, get?, perform]
  cases hp : f.places[k]? with
  | none => exact ⟨rfl, rfl⟩
  | some p => exact ⟨rfl, networks_save hf hp⟩

theorem Separate.perform (hf : f.Separate) (k : Nat) (call : Call) :
    (f.perform k call).2.Separate := by
  rw [Forks.perform]
  split
  · exact hf
  · exact hf.save

/-! ## Copying calls -/

theorem networks_lost (hf : f.Separate) (p : Places) {n : Network}
    (hn : n.skeleton = f.memory.skeleton) :
    (⟨(f.memory.fork p).2.save (f.memory.fork p).1 n, f.places⟩ : Forks).networks = f.networks := by
  have observations : f.places.map
      (fun q => (((f.memory.fork p).2.save (f.memory.fork p).1 n).load q).observations) =
        f.places.map fun q => (f.memory.load q).observations := by
    refine List.map_congr_left fun q hq => ?_
    obtain ⟨hobserved, hvalues⟩ := hf.holds q hq
    rw [Memory.load_save_of_ne (Nat.ne_of_gt hobserved) (Nat.ne_of_gt hvalues),
      Memory.load_fork ⟨hobserved, hvalues⟩]
  exact congrArg₂ Networks.mk hn observations

theorem networks_kept (hf : f.Separate) (p : Places) {n : Network}
    (hn : n.skeleton = f.memory.skeleton) :
    (⟨(f.memory.fork p).2.save (f.memory.fork p).1 n, f.places ++ [(f.memory.fork p).1]⟩ :
      Forks).networks = f.networks.push n := by
  have lost := congrArg Networks.observations (networks_lost hf p hn)
  have own : ((f.memory.fork p).2.save (f.memory.fork p).1 n).load (f.memory.fork p).1 = n :=
    Memory.load_save Memory.holds_fork_self
  refine congrArg₂ Networks.mk hn ?_
  rw [List.map_append, List.map_singleton, own]
  exact congrArg (· ++ [n.observations]) lost

/-- A call that conditions or deconditions answers and changes the networks as it does by value. -/
theorem networks_revise (hf : f.Separate) (k : Nat) (copying : Bool) (r : Revision) :
    (f.revise k copying r).1 = (f.networks.revise k copying r).1 ∧
      (f.revise k copying r).2.networks = (f.networks.revise k copying r).2 := by
  cases copying with
  | false =>
    obtain ⟨hanswer, hnetworks⟩ := networks_perform hf k r.call
    exact ⟨congrArg (Except.map fun _ => k) hanswer, hnetworks⟩
  | true =>
    simp only [revise, Networks.revise, if_true]
    rw [get?_networks, get?]
    cases hp : f.places[k]? with
    | none => exact ⟨rfl, rfl⟩
    | some p =>
      have hskeleton : (r.call.perform (f.memory.load p)).2.skeleton = f.memory.skeleton :=
        Network.skeleton_revision r
      simp only [Option.map_some, Memory.load_fork_self, Network.revise_eq]
      cases (r.call.perform (f.memory.load p)).1 with
      | ok answer =>
        have hsize : f.networks.size = f.places.length := List.length_map ..
        exact ⟨congrArg Except.ok hsize.symm, networks_kept hf p hskeleton⟩
      | error e => exact ⟨rfl, networks_lost hf p hskeleton⟩

/-- A place that is new is owned by no one else. -/
theorem nodup_append_new {g : Places → Nat} {places : List Places} (h : (places.map g).Nodup)
    (hq : ∀ p ∈ places, g p < g q) : ((places ++ [q]).map g).Nodup := by
  rw [List.map_append, List.nodup_append]
  refine ⟨h, List.nodup_singleton _, fun a ha b hb => ?_⟩
  obtain ⟨p, hp, rfl⟩ := List.mem_map.1 ha
  rw [List.mem_singleton.1 hb]
  exact Nat.ne_of_lt (hq p hp)

theorem Separate.forked (hf : f.Separate) (p : Places) (n : Network) :
    Separate ⟨(f.memory.fork p).2.save (f.memory.fork p).1 n,
      f.places ++ [(f.memory.fork p).1]⟩ where
  holds q hq := by
    rcases List.mem_append.1 hq with hq | hq
    · exact (hf.holds q hq).fork.save
    · rw [List.mem_singleton.1 hq]
      exact Memory.holds_fork_self.save
  observed := nodup_append_new hf.observed fun q hq => (hf.holds q hq).1
  values := nodup_append_new hf.values fun q hq => (hf.holds q hq).2

theorem Separate.revise (hf : f.Separate) (k : Nat) (copying : Bool) (r : Revision) :
    (f.revise k copying r).2.Separate := by
  cases copying with
  | false => exact hf.perform k r.call
  | true =>
    simp only [Forks.revise, if_true]
    split
    · exact hf
    · split
      · exact hf.forked ..
      · exact ⟨fun q hq => (hf.holds q hq).fork.save, hf.observed, hf.values⟩

/-- One network owns its collections alone. -/
theorem separate_single (capacity : Option Int) : (single capacity).Separate :=
  ⟨by simp [single, Memory.Holds], List.nodup_singleton _, List.nodup_singleton _⟩

end Forks

end PlateModel
