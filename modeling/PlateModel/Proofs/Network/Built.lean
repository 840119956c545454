import Mathlib.Data.List.Nodup
import PlateModel.Network.Basic
import PlateModel.Proofs.Computation
import PlateModel.Proofs.Graph.Reach

/-!
# Networks that can be built

A network is built from an empty one by adding vertices and edges. In all of these networks the
names of the vertices differ, edges join vertices that exist, and no path leads back along an edge.

* `Network.Built`: the networks that can be built.
* `Skeleton.Sound`, `Network.Built.sound`: what holds of all of them.
* `Skeleton.number?_eq_some`: a vertex is found by its name.
* `Skeleton.addVertex_eq_ok`, `Skeleton.addEdge_eq_ok`: when vertices and edges can be added.
* `Network.Built.exists_perm`: a network that can be built can be built with its vertices in any
  order.
-/

namespace PlateModel

/-- The distribution of a stochastic vertex. -/
def Role.distribution? : Role → Option Value
  | stochastic d _ => some d
  | deterministic _ => none

namespace Skeleton

/-- Names differ, edges join vertices that exist, and no path leads back along an edge. -/
structure Sound (s : Skeleton) : Prop where
  nodup : s.names.Nodup
  edges_lt : ∀ {i j}, s.edges.Edge i j → i < s.vertices.length ∧ j < s.vertices.length
  acyclic : s.edges.Acyclic

variable {s t : Skeleton} {x y : String} {i j : Nat} {v : Vertex} {new : Bool}

@[simp] theorem length_names : s.names.length = s.vertices.length := List.length_map ..

theorem number?_lt (h : s.number? x = some i) : i < s.vertices.length := by
  rw [← length_names]
  exact (List.findIdx?_eq_some_iff_getElem.1 h).1

/-- Where names differ, the number of a vertex is the place of its name. -/
theorem number?_eq_some (hs : s.names.Nodup) : s.number? x = some i ↔ s.names[i]? = some x := by
  rw [number?, List.findIdx?_eq_some_iff_getElem, List.getElem?_eq_some_iff]
  refine exists_congr fun hi =>
    ⟨fun ⟨hx, _⟩ => by simpa using hx, fun hx => ⟨by simpa using hx, ?_⟩⟩
  intro k hk heq
  have hxk : s.names[k] = x := by simpa using heq
  exact Nat.ne_of_lt hk ((List.Nodup.getElem_inj_iff hs).1 (hxk.trans hx.symm))

theorem number_eq_ok : s.number x = .ok i ↔ s.number? x = some i := by
  unfold number
  split <;> simp [*]

/-- What it takes to add a vertex, and what comes of it. -/
theorem addVertex_eq_ok : s.addVertex v = .ok t ↔
    v.name ∉ s.names ∧ (∀ limit ∈ s.capacity, s.vertices.length < limit) ∧
      t = { s with vertices := s.vertices ++ [v] } := by
  have hfresh : (s.number? v.name).isSome = true ↔ v.name ∈ s.names := by
    simp [number?, List.findIdx?_isSome]
  unfold addVertex
  by_cases hmem : v.name ∈ s.names
  · rw [if_pos (hfresh.2 hmem)]
    exact ⟨nofun, fun h => absurd hmem h.1⟩
  · rw [if_neg (mt hfresh.1 hmem)]
    cases hcap : s.capacity with
    | none =>
      refine ⟨fun h => ⟨hmem, nofun, ?_⟩, fun h => ?_⟩
      · cases h; rfl
      · rw [h.2.2]; rfl
    | some limit =>
      by_cases hlimit : limit ≤ s.vertices.length
      · simp only [hlimit, if_true]
        refine ⟨nofun, fun h => ?_⟩
        have := h.2.1 limit rfl
        omega
      · simp only [hlimit, if_false]
        refine ⟨fun h => ⟨hmem, fun l hl => ?_, ?_⟩, fun h => ?_⟩
        · cases hl
          omega
        · cases h; rfl
        · rw [h.2.2]; rfl

/-- What it takes to add an edge, and what comes of it. -/
theorem addEdge_eq_ok : s.addEdge x y = .ok (t, new) ↔
    ∃ i j, s.number? x = some i ∧ s.number? y = some j ∧
      ((i = j ∨ s.edges.Edge i j) ∧ t = s ∧ new = false ∨
        ¬ (i = j ∨ s.edges.Edge i j) ∧ ¬ s.edges.Leads j i ∧
          t = { s with edges := s.edges ++ [(i, j)] } ∧ new = true) := by
  unfold addEdge
  simp only [bind_eq_ok, number_eq_ok]
  refine exists_congr fun i => ?_
  constructor
  · rintro ⟨hx, j, hy, h⟩
    refine ⟨j, hx, hy, ?_⟩
    split at h
    · next hold =>
      cases h
      exact .inl ⟨by simpa [Digraph.Edge] using hold, rfl, rfl⟩
    · next hold =>
      split at h
      · cases h
      · next hreach =>
        cases h
        exact .inr ⟨by simpa [Digraph.Edge] using hold, mt Digraph.reaches_iff.2 hreach, rfl, rfl⟩
  · rintro ⟨j, hx, hy, h⟩
    refine ⟨hx, j, hy, ?_⟩
    rcases h with ⟨hold, rfl, rfl⟩ | ⟨hold, hleads, rfl, rfl⟩
    · rw [if_pos (by simpa [Digraph.Edge] using hold)]
      rfl
    · rw [if_neg (by simpa [Digraph.Edge] using hold), if_neg (mt Digraph.reaches_iff.1 hleads)]
      rfl

theorem Sound.addVertex (hs : s.Sound) (h : s.addVertex v = .ok t) : t.Sound := by
  obtain ⟨hfresh, -, rfl⟩ := addVertex_eq_ok.1 h
  refine ⟨?_, fun hij => ?_, hs.acyclic⟩
  · have hnames : names { s with vertices := s.vertices ++ [v] } = s.names ++ [v.name] := by
      simp [names]
    rw [hnames]
    exact List.nodup_append.2 ⟨hs.nodup, by simp, by
      rintro a ha b hb rfl
      exact hfresh (List.mem_singleton.1 hb ▸ ha)⟩
  · have := hs.edges_lt hij
    simp only [List.length_append, List.length_singleton]
    omega

theorem Sound.addEdge (hs : s.Sound) (h : s.addEdge x y = .ok (t, new)) : t.Sound := by
  obtain ⟨i, j, hi, hj, ⟨-, rfl, -⟩ | ⟨-, hleads, rfl, -⟩⟩ := addEdge_eq_ok.1 h
  · exact hs
  · refine ⟨hs.nodup, fun {k l} hkl => ?_, hs.acyclic.append hleads⟩
    have hkl : s.edges.Edge k l ∨ k = i ∧ l = j := by simpa [Digraph.Edge] using hkl
    rcases hkl with hkl | ⟨rfl, rfl⟩
    · exact hs.edges_lt hkl
    · exact ⟨number?_lt hi, number?_lt hj⟩

/-! ## Edges by name -/

/-- There is an edge between the vertices with two names. -/
def IsParent (s : Skeleton) (x y : String) : Prop :=
  ∃ i j, s.names[i]? = some x ∧ s.names[j]? = some y ∧ s.edges.Edge i j

/-- The edges between names. -/
def namedEdges (s : Skeleton) : Digraph String :=
  s.edges.filterMap fun (i, j) =>
    (s.names[i]?).bind fun x => (s.names[j]?).map fun y => (x, y)

theorem isParent_iff : s.IsParent x y ↔ (x, y) ∈ s.namedEdges := by
  simp only [IsParent, namedEdges, Digraph.Edge, List.mem_filterMap, Option.bind_eq_some_iff,
    Option.map_eq_some_iff, Prod.exists, Prod.mk.injEq]
  constructor
  · rintro ⟨i, j, hx, hy, hij⟩
    exact ⟨i, j, hij, x, hx, y, hy, rfl, rfl⟩
  · rintro ⟨i, j, hij, _, hx, _, hy, rfl, rfl⟩
    exact ⟨i, j, hx, hy, hij⟩

theorem IsParent.mem_names (h : s.IsParent x y) : x ∈ s.names ∧ y ∈ s.names := by
  obtain ⟨i, j, hx, hy, -⟩ := h
  exact ⟨List.mem_of_getElem? hx, List.mem_of_getElem? hy⟩

/-- A name stands for one vertex only. -/
theorem Sound.eq_of_names (hs : s.Sound) (hi : s.names[i]? = some x) (hj : s.names[j]? = some x) :
    i = j :=
  (List.getElem?_inj (List.getElem?_eq_some_iff.1 hi).1 hs.nodup).1 (hi.trans hj.symm)

/-- A path between names is one between the vertices with these names. -/
theorem Sound.leads_of_named (hs : s.Sound) (h : s.namedEdges.Leads x y)
    (hi : s.names[i]? = some x) : ∃ j, s.names[j]? = some y ∧ s.edges.Leads i j := by
  induction h with
  | refl => exact ⟨i, hi, .refl⟩
  | tail _ hyz ih =>
    obtain ⟨j, hj, hij⟩ := ih
    obtain ⟨j', k, hj', hk, hjk⟩ := isParent_iff.2 hyz
    obtain rfl := hs.eq_of_names hj hj'
    exact ⟨k, hk, hij.tail hjk⟩

theorem Sound.named_of_leads (hs : s.Sound) (h : s.edges.Leads i j) (hi : s.names[i]? = some x)
    (hj : s.names[j]? = some y) : s.namedEdges.Leads x y := by
  induction h generalizing y with
  | refl => exact Option.some.inj (hi.symm.trans hj) ▸ .refl
  | @tail k l _ hkl ih =>
    obtain ⟨z, hz⟩ : ∃ z, s.names[k]? = some z :=
      ⟨_, List.getElem?_eq_getElem (length_names (s := s) ▸ (hs.edges_lt hkl).1)⟩
    exact (ih hz).tail (isParent_iff.1 ⟨k, l, hz, hj, hkl⟩)

theorem Sound.acyclic_namedEdges (hs : s.Sound) : s.namedEdges.Acyclic := by
  intro x y hxy hyx
  obtain ⟨i, j, hi, hj, hij⟩ := isParent_iff.2 hxy
  obtain ⟨i', hi', hji⟩ := hs.leads_of_named hyx hj
  exact hs.acyclic i j hij (hs.eq_of_names hi hi' ▸ hji)

theorem isParent_append (hi : s.names[i]? = some x) (hj : s.names[j]? = some y) {a b : String} :
    IsParent { s with edges := s.edges ++ [(i, j)] } a b ↔ s.IsParent a b ∨ (a, b) = (x, y) := by
  have hnames : names { s with edges := s.edges ++ [(i, j)] } = s.names := rfl
  rw [isParent_iff, isParent_iff, namedEdges, hnames, List.filterMap_append, List.mem_append]
  simp [namedEdges, hi, hj]

/-- An edge of a graph without cycles to which all edges belong can be added. -/
theorem Sound.exists_addEdge (hs : s.Sound) {g : Digraph String} (hg : g.Acyclic)
    (hedges : ∀ a b, s.IsParent a b → g.Edge a b) (hx : x ∈ s.names) (hy : y ∈ s.names)
    (hxy : g.Edge x y) : ∃ t new, s.addEdge x y = .ok (t, new) ∧ t.vertices = s.vertices ∧
      ∀ a b, t.IsParent a b ↔ s.IsParent a b ∨ (a, b) = (x, y) := by
  obtain ⟨i, hi⟩ := List.mem_iff_getElem?.1 hx
  obtain ⟨j, hj⟩ := List.mem_iff_getElem?.1 hy
  have hi' := (number?_eq_some hs.nodup).2 hi
  have hj' := (number?_eq_some hs.nodup).2 hj
  by_cases hold : s.edges.Edge i j
  · refine ⟨s, false, addEdge_eq_ok.2 ⟨i, j, hi', hj', .inl ⟨.inr hold, rfl, rfl⟩⟩, rfl,
      fun a b => ⟨.inl, fun h => h.elim id fun heq => ?_⟩⟩
    cases heq
    exact ⟨i, j, hi, hj, hold⟩
  · have hne : i ≠ j := by
      rintro rfl
      exact hg.ne hxy (Option.some.inj (hi.symm.trans hj))
    have hleads : ¬ s.edges.Leads j i := fun h =>
      hg x y hxy (Relation.ReflTransGen.mono (fun a b hab => hedges a b (isParent_iff.2 hab)) y x
        (hs.named_of_leads h hj hi))
    exact ⟨_, true, addEdge_eq_ok.2 ⟨i, j, hi', hj', .inr ⟨not_or.2 ⟨hne, hold⟩, hleads, rfl, rfl⟩⟩,
      rfl, fun a b => isParent_append hi hj⟩

end Skeleton

namespace Network

/-- The networks that can be built from an empty one. A vertex may have been added even if its
observation could not be kept. -/
inductive Built : Network → Prop
  | empty (capacity : Option Int) : Built (.empty capacity)
  | stochastic {n : Network} (h : Built n) (name : String) (distribution : Value)
    (kernel : Option Generator) (observed : Bool) (value : Value) :
    Built (n.addStochastic name distribution kernel observed value).2
  | deterministic {n m : Network} {i : Nat} (h : Built n) {name : String} {function : Generator} :
    n.addDeterministic name function = .ok (i, m) → Built m
  | edge {n m : Network} {new : Bool} (h : Built n) {parent child : String} :
    n.addEdge parent child = .ok (new, m) → Built m

variable {n m : Network} {v : Vertex}

theorem sound_of_addVertex (hn : n.skeleton.Sound) (h : n.addVertex v = .ok m) :
    m.skeleton.Sound := by
  obtain ⟨t, ht, h⟩ := bind_eq_ok.1 h
  cases h
  exact hn.addVertex ht

/-- Names differ, edges join vertices that exist, and no path leads back along an edge. -/
theorem Built.sound (h : n.Built) : n.skeleton.Sound := by
  induction h with
  | empty => exact ⟨List.nodup_nil, nofun, .nil⟩
  | @stochastic n _ name distribution kernel observed value ih =>
    unfold addStochastic
    cases hadd : n.addVertex ⟨name, .stochastic distribution kernel⟩ with
    | error e => exact ih
    | ok m =>
      have hm := sound_of_addVertex ih hadd
      dsimp only
      split <;> exact hm
  | deterministic _ h ih =>
    obtain ⟨m, hm, h⟩ := bind_eq_ok.1 h
    cases h
    exact sound_of_addVertex ih hm
  | edge _ h ih =>
    obtain ⟨⟨t, new⟩, ht, h⟩ := bind_eq_ok.1 h
    cases h
    exact ih.addEdge ht

/-! ## Any order of the vertices -/

/-- A vertex with a new name can be added to a network without a limit. -/
theorem Built.exists_vertex (hn : n.Built) (hcapacity : n.skeleton.capacity = none)
    (hv : v.name ∉ n.skeleton.names) : ∃ m : Network, m.Built ∧
      m.skeleton = { n.skeleton with vertices := n.skeleton.vertices ++ [v] } := by
  have hadd : n.addVertex v =
      .ok ⟨{ n.skeleton with vertices := n.skeleton.vertices ++ [v] },
        { n.observations with observed := n.observations.observed ++ [false] }⟩ :=
    bind_eq_ok.2 ⟨_, Skeleton.addVertex_eq_ok.2 ⟨hv, by simp [hcapacity], rfl⟩, rfl⟩
  obtain ⟨name, role⟩ := v
  cases role with
  | stochastic d k =>
    refine ⟨_, hn.stochastic name d k false .missing, ?_⟩
    rw [addStochastic, hadd]
    dsimp only
    split <;> rfl
  | deterministic f => exact ⟨_, hn.deterministic (bind_eq_ok.2 ⟨_, hadd, rfl⟩), rfl⟩

theorem Built.exists_vertices : ∀ (vs : List Vertex) {n : Network}, n.Built →
    n.skeleton.capacity = none → (n.skeleton.names ++ vs.map (·.name)).Nodup →
      ∃ m : Network, m.Built ∧
        m.skeleton = { n.skeleton with vertices := n.skeleton.vertices ++ vs }
  | [], n, hn, _, _ => ⟨n, hn, by rw [List.append_nil]⟩
  | v :: vs, n, hn, hcapacity, hnodup => by
    have hfresh : v.name ∉ n.skeleton.names := fun h =>
      (List.nodup_append.1 hnodup).2.2 _ h _ (List.mem_cons_self ..) rfl
    obtain ⟨m, hm, hskeleton⟩ := hn.exists_vertex hcapacity hfresh
    have hnames : m.skeleton.names = n.skeleton.names ++ [v.name] := by
      rw [hskeleton, Skeleton.names, List.map_append]
      rfl
    obtain ⟨m', hm', hskeleton'⟩ := exists_vertices vs hm (by rw [hskeleton, hcapacity])
      (by rwa [hnames, List.append_assoc])
    refine ⟨m', hm', ?_⟩
    rw [hskeleton', hskeleton, List.append_assoc]
    rfl

theorem Built.exists_edges {g : Digraph String} (hg : g.Acyclic) : ∀ (es : List (String × String))
    {n : Network}, n.Built → (∀ a b, n.skeleton.IsParent a b → g.Edge a b) →
      (∀ e ∈ es, g.Edge e.1 e.2 ∧ e.1 ∈ n.skeleton.names ∧ e.2 ∈ n.skeleton.names) →
      ∃ m : Network, m.Built ∧ m.skeleton.vertices = n.skeleton.vertices ∧
        ∀ a b, m.skeleton.IsParent a b ↔ n.skeleton.IsParent a b ∨ (a, b) ∈ es
  | [], n, hn, _, _ => ⟨n, hn, rfl, by simp⟩
  | (x, y) :: es, n, hn, hedges, hes => by
    obtain ⟨⟨hxy, hx, hy⟩, hes⟩ := List.forall_mem_cons.1 hes
    obtain ⟨t, new, hadd, hvertices, hparent⟩ := hn.sound.exists_addEdge hg hedges hx hy hxy
    have ht : Network.Built { n with skeleton := t } :=
      hn.edge (bind_eq_ok.2 ⟨(t, new), hadd, rfl⟩ : n.addEdge x y = .ok (new, _))
    have hnames : t.names = n.skeleton.names := by rw [Skeleton.names, hvertices, Skeleton.names]
    obtain ⟨m, hm, hvertices', hparent'⟩ := exists_edges hg es ht
      (fun a b hab => ((hparent a b).1 hab).elim (hedges a b) fun heq => by cases heq; exact hxy)
      (fun e he => by rw [hnames]; exact hes e he)
    refine ⟨m, hm, hvertices'.trans hvertices, fun a b => ?_⟩
    rw [hparent', hparent, List.mem_cons, or_assoc]

/-- A network that can be built can be built with its vertices in any order. -/
theorem Built.exists_perm (hn : n.Built) {vs : List Vertex} (hvs : vs.Perm n.skeleton.vertices) :
    ∃ m : Network, m.Built ∧ m.skeleton.vertices = vs ∧
      ∀ x y, m.skeleton.IsParent x y ↔ n.skeleton.IsParent x y := by
  have hnames : (vs.map (·.name)).Perm n.skeleton.names := hvs.map _
  obtain ⟨m₀, hm₀, hskeleton⟩ := exists_vertices vs (.empty none) rfl
    (hnames.nodup_iff.2 hn.sound.nodup)
  have hmem (x : String) : x ∈ m₀.skeleton.names ↔ x ∈ n.skeleton.names := by
    rw [hskeleton]
    exact hnames.mem_iff
  have hnone (a b : String) : ¬ m₀.skeleton.IsParent a b := by
    rintro ⟨i, j, -, -, hij⟩
    rw [hskeleton] at hij
    cases hij
  obtain ⟨m, hm, hvertices, hparent⟩ := exists_edges hn.sound.acyclic_namedEdges
    n.skeleton.namedEdges hm₀ (fun a b hab => (hnone a b hab).elim) fun e he => by
      obtain ⟨hx, hy⟩ := (Skeleton.isParent_iff.2 he).mem_names
      exact ⟨he, (hmem _).2 hx, (hmem _).2 hy⟩
  refine ⟨m, hm, by rw [hvertices, hskeleton]; rfl, fun x y => ?_⟩
  rw [hparent, Skeleton.isParent_iff (s := n.skeleton), or_iff_right (hnone x y)]

end Network

end PlateModel
