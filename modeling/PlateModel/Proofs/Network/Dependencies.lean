import PlateModel.Network.Build
import PlateModel.Proofs.Emission.Nodes
import PlateModel.Proofs.Graph.Cycles
import PlateModel.Proofs.Graph.Order
import PlateModel.Proofs.Network.Query
import PlateModel.Proofs.Table

/-!
# The network of some nodes is their dependency graph

Nodes are added parents first. While they are, the network has the vertices of the nodes that have
been added, with the edges among them, and every value that a further node is evaluated with is the
one its parent has. The newest vertex has no edges yet, so an edge to it closes no cycle.

* `Seen`, `Callable`: the values that nodes are evaluated with, and what is assumed of generators.
* `Network.Shows`: a network shows some nodes.
* `addNodes_of_room`, `addNodes_of_full`: adding nodes parents first.
* `ofNodes_shows`: when there is a network of some nodes, and what it is like.
* `ofNodes_exceptions`: no nodes fit any capacity, and a value that is too large for a float.
-/

namespace PlateModel

/-! ## Names and edges -/

section Names

variable {nodes : Assoc Node} {x p : String}

theorem edge_dependencies (hkeys : nodes.keys.Nodup) :
    (dependencies nodes).Edge p x ↔ ∃ n, nodes.get? x = some n ∧ p ∈ n.parents := by
  simp only [Digraph.Edge, dependencies, List.mem_flatMap, List.mem_map, Prod.exists,
    Prod.mk.injEq]
  constructor
  · rintro ⟨y, n, hy, q, hq, rfl, rfl⟩
    exact ⟨n, Assoc.get?_of_mem hkeys hy, hq⟩
  · rintro ⟨n, hn, hp⟩
    exact ⟨x, n, Assoc.mem_of_get? hn, p, hp, rfl, rfl⟩

/-- Every parent of a node is a node. -/
def ParentsExist (nodes : Assoc Node) : Prop :=
  ∀ x n, nodes.get? x = some n → ∀ p ∈ n.parents, p ∈ nodes.keys

theorem checkParents_eq (hkeys : nodes.keys.Nodup) :
    (ParentsExist nodes → checkParents nodes = .ok ()) ∧
      (¬ ParentsExist nodes → ∃ e, checkParents nodes = .error (.network e)) := by
  have missing {p x : String} (h : (p, x) ∈ dependencies nodes) :
      ∃ n, nodes.get? x = some n ∧ p ∈ n.parents := (edge_dependencies hkeys).1 h
  rw [checkParents]
  split
  · next p x h =>
    refine ⟨fun hall => ?_, fun _ => ⟨_, rfl⟩⟩
    obtain ⟨n, hn, hp⟩ := missing (List.mem_of_find?_eq_some h)
    have hnot : ¬ nodes.contains p := by simpa using List.find?_some h
    exact absurd (Assoc.mem_keys_iff_contains.1 (hall x n hn p hp)) hnot
  · next h =>
    refine ⟨fun _ => rfl, fun hnot => absurd (fun x n hn p hp => ?_) hnot⟩
    have hcontains := List.find?_eq_none.1 h (p, x) ((edge_dependencies hkeys).2 ⟨n, hn, hp⟩)
    exact Assoc.mem_keys_iff_contains.2 (by simpa using hcontains)

theorem mentions_perm (hkeys : nodes.keys.Nodup) (hparents : ParentsExist nodes) :
    (mentions nodes).Perm nodes.keys := by
  have hnodup : (mentions nodes).Nodup := by
    rw [mentions, firstAppearances_eq]
    exact nodup_eraseDups _
  refine (List.perm_ext_iff_of_nodup hnodup hkeys).2 fun x => ?_
  simp only [mentions, firstAppearances_eq, List.mem_eraseDups, List.mem_flatMap, List.mem_cons,
    Prod.exists]
  constructor
  · rintro ⟨y, n, hy, rfl | hx⟩
    · exact List.mem_map.2 ⟨(x, n), hy, rfl⟩
    · exact hparents y n (Assoc.get?_of_mem hkeys hy) x hx
  · intro hx
    obtain ⟨n, hn⟩ := Assoc.mem_keys_iff.1 hx
    exact ⟨x, n, Assoc.mem_of_get? hn, .inl rfl⟩

/-- Nodes come parents first if all parents exist and there is no cycle; otherwise this is an error
of a network. -/
theorem nodeOrder_eq (hkeys : nodes.keys.Nodup) :
    (ParentsExist nodes ∧ (dependencies nodes).Acyclic → ∃ order,
      nodeOrder nodes = .ok order ∧ order.Perm nodes.keys ∧ (dependencies nodes).Ordered [] order) ∧
    (¬ (ParentsExist nodes ∧ (dependencies nodes).Acyclic) →
      ∃ e, nodeOrder nodes = .error (.network e)) := by
  obtain ⟨hok, herror⟩ := checkParents_eq hkeys
  by_cases hparents : ParentsExist nodes
  · have hperm := mentions_perm hkeys hparents
    have hedges {a b : String} (hab : (dependencies nodes).Edge a b) :
        a ∈ mentions nodes ∧ b ∈ mentions nodes := by
      obtain ⟨n, hn, ha⟩ := (edge_dependencies hkeys).1 hab
      exact ⟨hperm.symm.subset (hparents b n hn a ha),
        hperm.symm.subset (Assoc.mem_keys_iff.2 ⟨n, hn⟩)⟩
    have hcycle := Digraph.findCycle?_eq_none hedges
    simp only [nodeOrder, hok hparents, ok_bind, hparents, true_and]
    split
    · next edges hfound =>
      refine ⟨fun hacyclic => ?_, fun _ => ⟨_, rfl⟩⟩
      rw [hcycle.2 hacyclic] at hfound
      cases hfound
    · next hfound =>
      have hacyclic := hcycle.1 hfound
      obtain ⟨hall, hordered⟩ :=
        Digraph.topological_perm (hperm.nodup_iff.2 hkeys) hedges hacyclic
      exact ⟨fun _ => ⟨_, rfl, hall.trans hperm, hordered⟩, fun hnot => absurd hacyclic hnot⟩
  · obtain ⟨e, he⟩ := herror hparents
    refine ⟨fun h => absurd h.1 hparents, fun _ => ⟨e, ?_⟩⟩
    rw [nodeOrder, he]
    rfl

end Names

/-! ## Values of parents -/

/-- The value that the children of a node are evaluated with: that of a logical node is what its
generator gives, as floats; that of another node is its default. -/
inductive Seen (nodes : Assoc Node) : String → Value → Prop
  | logical {x : String} {n : Node} {values : String → Value} {v : Value} {t : Tensor Value} :
    nodes.get? x = some n → n.kind = .logical → (∀ p ∈ n.parents, Seen nodes p (values p)) →
    n.generator.call [] (.ofList (n.parents.map fun p => (p, values p))) = .ok v →
    v.floats? = .ok t → Seen nodes x (.tensor t)
  | other {x : String} {n : Node} :
    nodes.get? x = some n → n.kind ≠ .logical → Seen nodes x (.cell .real (.float n.default))

/-- Generators give a value when they are called with the values that their parents have, and those
of logical nodes give floats. -/
def Callable (nodes : Assoc Node) : Prop :=
  ∀ x n, nodes.get? x = some n → ∀ values : String → Value,
    (∀ p ∈ n.parents, Seen nodes p (values p)) →
      ∃ v, n.generator.call [] (.ofList (n.parents.map fun p => (p, values p))) = .ok v ∧
        (n.kind = .logical → ∃ t, v.floats? = .ok t)

namespace Network

variable {nodes : Assoc Node} {net : Network} {current : Assoc Value} {done : List String}
  {x : String} {n : Node}

theorem generatedAt_eq (hcall : Callable nodes) (hn : nodes.get? x = some n)
    (hcurrent : ∀ p ∈ n.parents, ∃ v, current.get? p = some v ∧ Seen nodes p v) :
    ∃ values : String → Value, (∀ p ∈ n.parents, Seen nodes p (values p)) ∧
      ∃ v, n.generator.call [] (.ofList (n.parents.map fun p => (p, values p))) = .ok v ∧
        generatedAt current n = .ok v ∧ (n.kind = .logical → ∃ t, v.floats? = .ok t) := by
  have hvalues : ∀ p ∈ n.parents, current.get? p = some ((current.get? p).getD .missing) ∧
      Seen nodes p ((current.get? p).getD .missing) := by
    intro p hp
    obtain ⟨v, hv, hseen⟩ := hcurrent p hp
    rw [hv]
    exact ⟨rfl, hseen⟩
  have hparents : n.parents.filterMap (fun p => (current.get? p).map fun v => (p, v)) =
      n.parents.map fun p => (p, (current.get? p).getD .missing) := by
    rw [← List.filterMap_eq_map]
    refine List.filterMap_congr fun p hp => ?_
    obtain ⟨v, hv, -⟩ := hcurrent p hp
    simp [hv]
  obtain ⟨v, hv, hfloats⟩ := hcall x n hn _ fun p hp => (hvalues p hp).2
  refine ⟨_, fun p hp => (hvalues p hp).2, v, hv, ?_, hfloats⟩
  simp only [generatedAt, hparents, hv]

/-! ## Adding one node -/

/-- The network with the vertex of a node and what is observed of it, but without its edges. -/
def withNode (net : Network) (x : String) (n : Node) (role : Role) : Network :=
  ⟨{ net.skeleton with vertices := net.skeleton.vertices ++ [⟨x, role⟩] },
    ⟨net.observations.observed ++ [decide (n.kind = .observation)],
      if n.kind = .observation then net.observations.values.put x (.float n.default)
      else net.observations.values⟩⟩

theorem addVertex_of_room {v : Vertex} (hfresh : v.name ∉ net.skeleton.names)
    (hroom : ∀ limit ∈ net.skeleton.capacity, net.size < limit) :
    net.addVertex v = .ok ⟨{ net.skeleton with vertices := net.skeleton.vertices ++ [v] },
      { net.observations with observed := net.observations.observed ++ [false] }⟩ := by
  rw [addVertex, Skeleton.addVertex_eq_ok.2 ⟨hfresh, hroom, rfl⟩]
  rfl

theorem addVertex_of_full {v : Vertex} {limit : Int} (hlimit : net.skeleton.capacity = some limit)
    (hfull : limit ≤ net.size) : ∃ e, net.addVertex v = .error (.network e) := by
  have hskeleton : ∃ e, net.skeleton.addVertex v = .error (.network e) := by
    rw [Skeleton.addVertex, hlimit]
    split
    · exact ⟨_, rfl⟩
    · rw [size] at hfull
      simp only [hfull, if_true]
      exact ⟨_, rfl⟩
  obtain ⟨e, he⟩ := hskeleton
  refine ⟨e, ?_⟩
  rw [addVertex, he]
  rfl

/-- A node that is not logical is added as a stochastic vertex. -/
theorem addStochastic_of_room {d : Value} (hfresh : x ∉ net.skeleton.names)
    (hlength : net.observations.observed.length = net.size)
    (hroom : ∀ limit ∈ net.skeleton.capacity, net.size < limit) :
    net.addStochastic x d (some n.generator) (n.kind = .observation) (.float n.default) =
      (.ok net.size, net.withNode x n (.stochastic d (some n.generator))) := by
  have hobserved {b : Bool} : (net.observations.observed ++ [false]).set net.size b =
      net.observations.observed ++ [b] := by
    rw [← hlength, List.set_append_right _ _ (Nat.le_refl _), Nat.sub_self]
    rfl
  have hnew : (net.observations.observed ++ [false])[net.size]? = some false := by
    rw [← hlength]
    simp
  simp only [addStochastic, addVertex_of_room (v := ⟨x, .stochastic d (some n.generator)⟩) hfresh
    hroom, isObserved, hnew, hobserved, withNode]
  by_cases hkind : n.kind = .observation
  · simp only [hkind, decide_true, if_true]
    rfl
  · simp only [hkind, decide_false, if_false]

theorem addNode_of_room (hcall : Callable nodes) (hn : nodes.get? x = some n)
    (hcurrent : ∀ p ∈ n.parents, ∃ v, current.get? p = some v ∧ Seen nodes p v)
    (hfresh : x ∉ net.skeleton.names) (hlength : net.observations.observed.length = net.size)
    (hroom : ∀ limit ∈ net.skeleton.capacity, net.size < limit) :
    ∃ role value, net.addNode current x n = .ok (net.withNode x n role, value) ∧
      (role.isStochastic = false ↔ n.kind = .logical) ∧ Seen nodes x value := by
  obtain ⟨values, hvalues, v, hv, hgenerated, hfloats⟩ := generatedAt_eq hcall hn hcurrent
  by_cases hkind : n.kind = .logical
  · obtain ⟨t, ht⟩ := hfloats hkind
    refine ⟨.deterministic n.generator, .tensor t, ?_, iff_of_true rfl hkind,
      .logical hn hkind hvalues hv ht⟩
    have hadd := addVertex_of_room (v := ⟨x, .deterministic n.generator⟩) hfresh hroom
    simp only [addNode, hgenerated, ok_bind, hkind, ht, orFault, addDeterministic, hadd]
    simp only [withNode, hkind, reduceCtorEq, decide_false, if_false]
    rfl
  · refine ⟨.stochastic v (some n.generator), .cell .real (.float n.default), ?_,
      iff_of_false (by simp [Role.isStochastic]) hkind, .other hn hkind⟩
    have hadd := addStochastic_of_room (n := n) (d := v) hfresh hlength hroom
    simp only [addNode, hgenerated, ok_bind, hadd]
    rfl

theorem addNode_of_full {limit : Int} (hcall : Callable nodes) (hn : nodes.get? x = some n)
    (hcurrent : ∀ p ∈ n.parents, ∃ v, current.get? p = some v ∧ Seen nodes p v)
    (hlimit : net.skeleton.capacity = some limit) (hfull : limit ≤ net.size) :
    ∃ e, net.addNode current x n = .error (.network e) := by
  obtain ⟨-, -, v, -, hgenerated, hfloats⟩ := generatedAt_eq hcall hn hcurrent
  by_cases hkind : n.kind = .logical
  · obtain ⟨t, ht⟩ := hfloats hkind
    obtain ⟨e, he⟩ := addVertex_of_full (v := ⟨x, .deterministic n.generator⟩) hlimit hfull
    refine ⟨e, ?_⟩
    simp only [addNode, hgenerated, ok_bind, hkind, ht, orFault, addDeterministic, he]
    rfl
  · obtain ⟨e, he⟩ := addVertex_of_full (v := ⟨x, .stochastic v (some n.generator)⟩) hlimit hfull
    refine ⟨e, ?_⟩
    simp only [addNode, hgenerated, ok_bind, addStochastic, he]
    rfl

/-- Edges from older vertices to the newest one can be added. -/
theorem addParents_eq_ok {m : Nat} : ∀ (ps : List String) (net : Network),
    net.skeleton.names.Nodup → net.skeleton.names[m]? = some x →
    (∀ {i j}, net.skeleton.edges.Edge i j → i < m) →
    (∀ p ∈ ps, ∃ i < m, net.skeleton.names[i]? = some p) →
    ∃ edges, net.addParents x ps = .ok { net with skeleton := { net.skeleton with edges } } ∧
      ∀ i j, edges.Edge i j ↔
        net.skeleton.edges.Edge i j ∨ j = m ∧ ∃ p ∈ ps, net.skeleton.names[i]? = some p
  | [], net, _, _, _, _ => ⟨net.skeleton.edges, rfl, by simp⟩
  | p :: ps, net, hnames, hx, hnewest, hps => by
    obtain ⟨i, him, hp⟩ := hps p (List.mem_cons_self ..)
    have hi := (Skeleton.number?_eq_some hnames).2 hp
    have hm := (Skeleton.number?_eq_some hnames).2 hx
    -- a parent that is mentioned again has its edge already
    obtain ⟨edges, new, hadd, hedges⟩ : ∃ edges new,
        net.skeleton.addEdge p x = .ok ({ net.skeleton with edges }, new) ∧
          ∀ k l, edges.Edge k l ↔ net.skeleton.edges.Edge k l ∨ k = i ∧ l = m := by
      by_cases hold : net.skeleton.edges.Edge i m
      · refine ⟨net.skeleton.edges, false,
          Skeleton.addEdge_eq_ok.2 ⟨i, m, hi, hm, .inl ⟨.inr hold, rfl, rfl⟩⟩, fun k l => ?_⟩
        refine ⟨.inl, ?_⟩
        rintro (h | ⟨rfl, rfl⟩)
        · exact h
        · exact hold
      · have hleads : ¬ net.skeleton.edges.Leads m i := by
          intro h
          rcases h.cases_head with heq | ⟨k, hk, -⟩
          · exact Nat.ne_of_gt him heq
          · exact Nat.lt_irrefl m (hnewest hk)
        have hnew : ¬ (i = m ∨ net.skeleton.edges.Edge i m) :=
          not_or.2 ⟨Nat.ne_of_lt him, hold⟩
        exact ⟨net.skeleton.edges ++ [(i, m)], true,
          Skeleton.addEdge_eq_ok.2 ⟨i, m, hi, hm, .inr ⟨hnew, hleads, rfl, rfl⟩⟩,
          fun k l => by simp [Digraph.Edge]⟩
    obtain ⟨edges', hadd', hedges'⟩ := addParents_eq_ok ps
      { net with skeleton := { net.skeleton with edges } } hnames hx
      (fun {k l} hkl => by
        rcases (hedges k l).1 hkl with hkl | ⟨rfl, -⟩
        · exact hnewest hkl
        · exact him)
      fun q hq => hps q (List.mem_cons_of_mem _ hq)
    refine ⟨edges', ?_, fun k l => ?_⟩
    · simp only [addParents, addEdge, hadd, ok_bind]
      exact hadd'
    · rw [hedges' k l, hedges k l, or_assoc]
      refine or_congr_right ⟨?_, ?_⟩
      · rintro (⟨rfl, rfl⟩ | ⟨rfl, q, hq, hk⟩)
        · exact ⟨rfl, p, List.mem_cons_self .., hp⟩
        · exact ⟨rfl, q, List.mem_cons_of_mem _ hq, hk⟩
      · rintro ⟨rfl, q, hq, hk⟩
        rcases List.mem_cons.1 hq with rfl | hq
        · have hlt := (List.getElem?_eq_some_iff.1 hk).1
          exact .inl ⟨(List.getElem?_inj hlt hnames).1 (hk.trans hp.symm), rfl⟩
        · exact .inr ⟨rfl, q, hq, hk⟩

/-! ## Adding nodes in order -/

/-- A network of some capacity has the vertices of the nodes that have been added, in this order,
and the edges among them. -/
structure HasAdded (nodes : Assoc Node) (capacity : Option Int) (done : List String)
    (net : Network) : Prop where
  capacity : net.skeleton.capacity = capacity
  names : net.skeleton.names = done
  roles : ∀ v ∈ net.skeleton.vertices, ∃ n, nodes.get? v.name = some n ∧
    (v.role.isStochastic = false ↔ n.kind = .logical)
  edges : ∀ {i j}, net.skeleton.edges.Edge i j ↔
    ∃ x n, done[j]? = some x ∧ nodes.get? x = some n ∧ ∃ p ∈ n.parents, done[i]? = some p
  ascending : ∀ {i j}, net.skeleton.edges.Edge i j → i < j
  observed : List.Forall₂
    (fun x b => ∃ n, nodes.get? x = some n ∧ (b = true ↔ n.kind = .observation))
    done net.observations.observed
  values : ∀ {x v}, net.observations.values.get? x = some v ↔
    x ∈ done ∧ ∃ n, nodes.get? x = some n ∧ n.kind = .observation ∧ v = .float n.default
  /-- The parents of a node have been added before it. -/
  closed : ∀ {x n}, x ∈ done → nodes.get? x = some n → ∀ p ∈ n.parents, p ∈ done

section Order

variable {capacity : Option Int} {rest : List String}

theorem hasAdded_empty : HasAdded nodes capacity [] (.empty capacity) where
  capacity := rfl
  names := rfl
  roles := nofun
  edges := ⟨nofun, fun ⟨_, _, h, _⟩ => nomatch h⟩
  ascending := nofun
  observed := .nil
  values := ⟨nofun, fun h => nomatch h.1⟩
  closed := nofun

theorem getElem?_snoc {α : Type} {xs : List α} {a b : α} {i : Nat} :
    (xs ++ [a])[i]? = some b ↔ xs[i]? = some b ∨ i = xs.length ∧ b = a := by
  rcases Nat.lt_trichotomy i xs.length with hi | rfl | hi
  · rw [List.getElem?_append_left hi]
    exact ⟨.inl, fun h => h.resolve_right fun h => Nat.ne_of_lt hi h.1⟩
  · simp [eq_comm]
  · rw [List.getElem?_eq_none (by simp; omega), List.getElem?_eq_none (by omega)]
    constructor
    · intro h
      cases h
    · rintro (h | ⟨h, -⟩)
      · cases h
      · exact absurd h (Nat.ne_of_gt hi)

theorem HasAdded.size (h : HasAdded nodes capacity done net) : net.size = done.length := by
  rw [← h.names, Skeleton.length_names]
  rfl

theorem HasAdded.edges_snoc (h : HasAdded nodes capacity done net) (hx : x ∉ done)
    (hn : nodes.get? x = some n) {i j : Nat} :
    (net.skeleton.edges.Edge i j ∨
      j = done.length ∧ ∃ p ∈ n.parents, (done ++ [x])[i]? = some p) ↔
    ∃ y m, (done ++ [x])[j]? = some y ∧ nodes.get? y = some m ∧
      ∃ p ∈ m.parents, (done ++ [x])[i]? = some p := by
  constructor
  · rintro (hij | ⟨rfl, p, hp, hi⟩)
    · obtain ⟨y, m, hy, hm, p, hp, hi⟩ := h.edges.1 hij
      exact ⟨y, m, getElem?_snoc.2 (.inl hy), hm, p, hp, getElem?_snoc.2 (.inl hi)⟩
    · exact ⟨x, n, getElem?_snoc.2 (.inr ⟨rfl, rfl⟩), hn, p, hp, hi⟩
  · rintro ⟨y, m, hy, hm, p, hp, hi⟩
    rcases getElem?_snoc.1 hy with hy | ⟨rfl, rfl⟩
    · -- older nodes do not have the newest one as a parent
      have hpdone := h.closed (List.mem_of_getElem? hy) hm p hp
      rcases getElem?_snoc.1 hi with hi | ⟨-, rfl⟩
      · exact .inl (h.edges.2 ⟨y, m, hy, hm, p, hp, hi⟩)
      · exact absurd hpdone hx
    · cases hn.symm.trans hm
      exact .inr ⟨rfl, p, hp, hi⟩

theorem HasAdded.values_snoc (h : HasAdded nodes capacity done net) (hx : x ∉ done)
    (hn : nodes.get? x = some n) (role : Role) {y : String} {v : Value} :
    (net.withNode x n role).observations.values.get? y = some v ↔
      y ∈ done ++ [x] ∧
        ∃ m, nodes.get? y = some m ∧ m.kind = .observation ∧ v = .float m.default := by
  by_cases hyx : y = x
  · subst hyx
    have hold : net.observations.values.get? y = none :=
      Option.eq_none_iff_forall_ne_some.2 fun w hw => hx (h.values.1 hw).1
    by_cases hkind : n.kind = .observation
    · simp [withNode, hkind, hn, eq_comm]
    · simp [withNode, hkind, hn, hold]
  · have hold : (net.withNode x n role).observations.values.get? y =
        net.observations.values.get? y := by
      simp only [withNode]
      split
      · exact Assoc.get?_put_of_ne hyx
      · rfl
    rw [hold, h.values]
    simp [hyx]

/-- A node is added after its parents. -/
theorem HasAdded.step (h : HasAdded nodes capacity done net) (hcall : Callable nodes)
    (hcurrent : ∀ p ∈ done, ∃ v, current.get? p = some v ∧ Seen nodes p v)
    (hdone : (done ++ [x]).Nodup) (hn : nodes.get? x = some n)
    (hparents : ∀ p ∈ n.parents, p ∈ done)
    (hroom : ∀ limit ∈ capacity, (done.length : Int) < limit) :
    ∃ net₁ value net₂, net.addNode current x n = .ok (net₁, value) ∧
      net₁.addParents x n.parents = .ok net₂ ∧
      HasAdded nodes capacity (done ++ [x]) net₂ ∧ Seen nodes x value := by
  have hx : x ∉ done := fun hx => (List.nodup_append.1 hdone).2.2 x hx x (List.mem_cons_self ..) rfl
  obtain ⟨role, value, hadd, hrole, hseen⟩ := addNode_of_room hcall hn
    (fun p hp => hcurrent p (hparents p hp)) (h.names ▸ hx)
    (by rw [h.size, h.observed.length_eq]) (by rw [h.capacity, h.size]; exact hroom)
  have hnames : (net.withNode x n role).skeleton.names = done ++ [x] := by
    rw [← h.names]
    simp [withNode, Skeleton.names]
  have hnewest {i j : Nat} (hij : net.skeleton.edges.Edge i j) : i < done.length := by
    obtain ⟨y, m, hy, -⟩ := h.edges.1 hij
    exact Nat.lt_trans (h.ascending hij) (List.getElem?_eq_some_iff.1 hy).1
  obtain ⟨edges, hedge, hedges⟩ := addParents_eq_ok (x := x) (m := done.length) n.parents
    (net.withNode x n role) (hnames ▸ hdone) (by rw [hnames, getElem?_snoc]; simp) hnewest
    (fun p hp => by
      obtain ⟨i, hi⟩ := List.mem_iff_getElem?.1 (hparents p hp)
      exact ⟨i, (List.getElem?_eq_some_iff.1 hi).1, by rw [hnames, getElem?_snoc]; exact .inl hi⟩)
  refine ⟨_, value, _, hadd, hedge, ?_, hseen⟩
  rw [hnames] at hedges
  exact
    { capacity := h.capacity
      names := hnames
      roles := by
        intro v hv
        rcases List.mem_append.1 hv with hv | hv
        · exact h.roles v hv
        · rw [List.mem_singleton.1 hv]
          exact ⟨n, hn, hrole⟩
      edges := by
        intro i j
        rw [hedges]
        exact h.edges_snoc hx hn
      ascending := by
        intro i j hij
        rcases (hedges i j).1 hij with hij | ⟨rfl, p, hp, hi⟩
        · exact h.ascending hij
        · rcases getElem?_snoc.1 hi with hi | ⟨-, rfl⟩
          · exact (List.getElem?_eq_some_iff.1 hi).1
          · exact absurd (hparents _ hp) hx
      observed := List.rel_append h.observed (.cons ⟨n, hn, by simp⟩ .nil)
      values := by
        intro y v
        exact h.values_snoc hx hn role
      closed := by
        intro y m hy hm p hp
        rcases List.mem_append.1 hy with hy | hy
        · exact List.mem_append_left _ (h.closed hy hm p hp)
        · rw [List.mem_singleton.1 hy, hn] at hm
          cases hm
          exact List.mem_append_left _ (hparents p hp) }

/-- Some nodes have been added, and the others follow parents first. -/
structure Adding (nodes : Assoc Node) (capacity : Option Int) (done rest : List String)
    (net : Network) (current : Assoc Value) : Prop where
  added : HasAdded nodes capacity done net
  current : ∀ p ∈ done, ∃ v, current.get? p = some v ∧ Seen nodes p v
  nodup : (done ++ rest).Nodup
  known : rest ⊆ nodes.keys
  ordered : (dependencies nodes).Ordered done rest

/-- The next node, with its parents. -/
theorem Adding.node (h : Adding nodes capacity done (x :: rest) net current)
    (hkeys : nodes.keys.Nodup) : ∃ n, nodes.get? x = some n ∧ ∀ p ∈ n.parents, p ∈ done := by
  obtain ⟨n, hn⟩ := Assoc.mem_keys_iff.1 (h.known (List.mem_cons_self ..))
  exact ⟨n, hn, fun p hp => h.ordered.1 p ((edge_dependencies hkeys).2 ⟨n, hn, hp⟩)⟩

theorem Adding.next (h : Adding nodes capacity done (x :: rest) net current)
    (hkeys : nodes.keys.Nodup) (hcall : Callable nodes)
    (hroom : ∀ limit ∈ capacity, (done.length : Int) < limit) :
    ∃ net' current', net.addNodes nodes current (x :: rest) = net'.addNodes nodes current' rest ∧
      Adding nodes capacity (done ++ [x]) rest net' current' := by
  obtain ⟨n, hn, hparents⟩ := h.node hkeys
  have hnodup : (done ++ [x] ++ rest).Nodup := by
    rw [List.append_assoc, List.singleton_append]
    exact h.nodup
  obtain ⟨net₁, value, net₂, hnode, hedges, hadded, hseen⟩ :=
    h.added.step hcall h.current (List.nodup_append.1 hnodup).1 hn hparents hroom
  refine ⟨net₂, current.put x value, ?_, hadded, ?_, hnodup,
    (List.cons_subset.1 h.known).2, h.ordered.2⟩
  · simp only [addNodes, hn, hnode, ok_bind, hedges]
  · intro p hp
    by_cases hpx : p = x
    · subst hpx
      exact ⟨value, Assoc.get?_put_self, hseen⟩
    · rw [Assoc.get?_put_of_ne hpx]
      exact h.current p ((List.mem_append.1 hp).resolve_right (by simpa using hpx))

theorem Adding.full {limit : Int} (h : Adding nodes (some limit) done (x :: rest) net current)
    (hkeys : nodes.keys.Nodup) (hcall : Callable nodes) (hfull : limit ≤ done.length) :
    ∃ e, net.addNodes nodes current (x :: rest) = .error (.network e) := by
  obtain ⟨n, hn, hparents⟩ := h.node hkeys
  obtain ⟨e, he⟩ := addNode_of_full hcall hn (fun p hp => h.current p (hparents p hp))
    h.added.capacity (by rw [h.added.size]; exact hfull)
  refine ⟨e, ?_⟩
  simp only [addNodes, hn, he]
  rfl

/-- All nodes are added if there is room for them. -/
theorem addNodes_of_room (hkeys : nodes.keys.Nodup) (hcall : Callable nodes) :
    ∀ {rest done : List String} {net : Network} {current : Assoc Value},
      Adding nodes capacity done rest net current →
      (∀ limit ∈ capacity, ((done ++ rest).length : Int) ≤ limit) →
      ∃ net', net.addNodes nodes current rest = .ok net' ∧
        HasAdded nodes capacity (done ++ rest) net'
  | [], done, net, current, h, _ => ⟨net, rfl, by rw [List.append_nil]; exact h.added⟩
  | x :: rest, done, net, current, h, hroom => by
    obtain ⟨net', current', heq, hnext⟩ := h.next hkeys hcall fun limit hlimit => by
      have := hroom limit hlimit
      simp only [List.length_append, List.length_cons] at this
      omega
    rw [← List.singleton_append, ← List.append_assoc] at hroom ⊢
    obtain ⟨net'', hall, hadded⟩ := addNodes_of_room hkeys hcall hnext hroom
    exact ⟨net'', heq ▸ hall, hadded⟩

/-- There is an error of the network if a node is left for which there is no room. -/
theorem addNodes_of_full {limit : Int} (hkeys : nodes.keys.Nodup) (hcall : Callable nodes) :
    ∀ {rest done : List String} {net : Network} {current : Assoc Value},
      Adding nodes (some limit) done rest net current → rest ≠ [] →
      limit < (done ++ rest).length → ∃ e, net.addNodes nodes current rest = .error (.network e)
  | [], _, _, _, _, hrest, _ => absurd rfl hrest
  | x :: rest, done, net, current, h, _, hfull => by
    by_cases hnow : limit ≤ done.length
    · exact h.full hkeys hcall hnow
    · obtain ⟨net', current', heq, hnext⟩ := h.next hkeys hcall (by simpa using hnow)
      rw [heq]
      refine addNodes_of_full hkeys hcall hnext ?_ ?_
      · rintro rfl
        simp only [List.length_append, List.length_singleton] at hfull
        omega
      · rw [List.append_assoc, List.singleton_append]
        exact hfull

end Order

/-! ## Networks of nodes -/

/-- A network shows some nodes: its vertices are the nodes, with an edge from every parent, which
has the smaller number; the logical nodes are the deterministic vertices, and the observations are
observed with their defaults. -/
structure Shows (net : Network) (nodes : Assoc Node) : Prop where
  names : net.skeleton.names.Perm nodes.keys
  parents : ∀ p x, net.skeleton.IsParent p x ↔ ∃ n, nodes.get? x = some n ∧ p ∈ n.parents
  ascending : ∀ i j, net.skeleton.edges.Edge i j → i < j
  deterministic : ∀ v ∈ net.skeleton.vertices,
    v.role.isStochastic = false ↔ ∃ n, nodes.get? v.name = some n ∧ n.kind = .logical
  observed : ∀ x, x ∈ net.observedNames ↔ ∃ n, nodes.get? x = some n ∧ n.kind = .observation
  values : ∀ x v, net.observations.values.get? x = some v ↔
    ∃ n, nodes.get? x = some n ∧ n.kind = .observation ∧ v = .float n.default

/-- What is marked where a property holds are the items that have the property. -/
theorem mem_filterMap_zip {α : Type} {P : α → Prop} {a : α} : ∀ {xs : List α} {bs : List Bool},
    List.Forall₂ (fun x b => b = true ↔ P x) xs bs →
      (a ∈ (xs.zip bs).filterMap (fun (x, b) => if b then some x else none) ↔ a ∈ xs ∧ P a)
  | [], [], .nil => by simp
  | x :: xs, true :: bs, .cons hx h => by
    change a ∈ x :: (xs.zip bs).filterMap (fun (x, b) => if b then some x else none) ↔ _
    rw [List.mem_cons, List.mem_cons, mem_filterMap_zip h]
    refine ⟨?_, fun ⟨ha, hP⟩ => ha.imp_right fun ha => ⟨ha, hP⟩⟩
    rintro (rfl | ⟨ha, hP⟩)
    · exact ⟨.inl rfl, hx.1 rfl⟩
    · exact ⟨.inr ha, hP⟩
  | x :: xs, false :: bs, .cons hx h => by
    change a ∈ (xs.zip bs).filterMap (fun (x, b) => if b then some x else none) ↔ _
    rw [List.mem_cons, mem_filterMap_zip h]
    refine ⟨fun ⟨ha, hP⟩ => ⟨.inr ha, hP⟩, fun ⟨ha, hP⟩ => ⟨ha.resolve_left ?_, hP⟩⟩
    rintro rfl
    exact Bool.false_ne_true (hx.2 hP)

theorem HasAdded.shows {capacity : Option Int} (h : HasAdded nodes capacity done net)
    (hdone : done.Perm nodes.keys) : net.Shows nodes where
  names := h.names ▸ hdone
  parents p x := by
    simp only [Skeleton.IsParent, h.names, h.edges]
    constructor
    · rintro ⟨i, j, hi, hj, y, n, hy, hn, q, hq, hqi⟩
      cases hj.symm.trans hy
      cases hi.symm.trans hqi
      exact ⟨n, hn, hq⟩
    · rintro ⟨n, hn, hp⟩
      have hx := hdone.symm.subset (Assoc.mem_keys_iff.2 ⟨n, hn⟩)
      obtain ⟨j, hj⟩ := List.mem_iff_getElem?.1 hx
      obtain ⟨i, hi⟩ := List.mem_iff_getElem?.1 (h.closed hx hn p hp)
      exact ⟨i, j, hi, hj, x, n, hj, hn, p, hp, hi⟩
  ascending _ _ := h.ascending
  deterministic v hv := by
    obtain ⟨n, hn, hrole⟩ := h.roles v hv
    simp [hn, hrole]
  observed x := by
    have hmarked : List.Forall₂
        (fun y b => b = true ↔ ∃ n, nodes.get? y = some n ∧ n.kind = .observation)
        done net.observations.observed := by
      refine h.observed.imp ?_
      rintro y b ⟨n, hn, hb⟩
      refine hb.trans ⟨fun hkind => ⟨n, hn, hkind⟩, ?_⟩
      rintro ⟨m, hm, hkind⟩
      cases hn.symm.trans hm
      exact hkind
    rw [observedNames, h.names, mem_filterMap_zip hmarked]
    refine and_iff_right_of_imp ?_
    rintro ⟨n, hn, -⟩
    exact hdone.symm.subset (Assoc.mem_keys_iff.2 ⟨n, hn⟩)
  values x v := by
    rw [h.values]
    refine and_iff_right_of_imp ?_
    rintro ⟨n, hn, -⟩
    exact hdone.symm.subset (Assoc.mem_keys_iff.2 ⟨n, hn⟩)

/-- Generators give values when they are called with those of their parents. Then there is an error
of the network if and only if a parent is missing, there is a cycle, or there is a node and the
capacity is below the number of nodes; and otherwise there is a network, which shows the nodes. -/
theorem ofNodes_shows (hkeys : nodes.keys.Nodup) (hcall : Callable nodes) (capacity : Option Int) :
    ((∃ e, ofNodes nodes capacity = .error (.network e)) ↔
      ¬ ParentsExist nodes ∨ ¬ (dependencies nodes).Acyclic ∨
        ∃ limit ∈ capacity, 0 < nodes.size ∧ limit < nodes.size) ∧
    (ParentsExist nodes → (dependencies nodes).Acyclic →
      (∀ limit ∈ capacity, 0 < nodes.size → (nodes.size : Int) ≤ limit) →
      ∃ net, ofNodes nodes capacity = .ok net ∧ net.Shows nodes) := by
  obtain ⟨hok, herror⟩ := nodeOrder_eq hkeys
  by_cases hgood : ParentsExist nodes ∧ (dependencies nodes).Acyclic
  · obtain ⟨order, horder, hperm, hordered⟩ := hok hgood
    have hrun : ofNodes nodes capacity = (empty capacity).addNodes nodes .empty order := by
      rw [ofNodes, horder]
      rfl
    have hlength : order.length = nodes.size := by
      rw [hperm.length_eq, Assoc.keys, List.length_map]
      rfl
    have hstart : Adding nodes capacity [] order (.empty capacity) .empty :=
      ⟨hasAdded_empty, fun _ hp => absurd hp List.not_mem_nil, hperm.nodup_iff.2 hkeys,
        hperm.subset, hordered⟩
    rw [hrun]
    by_cases hfull : ∃ limit ∈ capacity, 0 < nodes.size ∧ limit < nodes.size
    · obtain ⟨limit, hlimit, hpos, hlt⟩ := hfull
      cases hlimit
      have hrest : order ≠ [] := List.ne_nil_of_length_pos (by omega)
      have := addNodes_of_full hkeys hcall hstart hrest (by simpa [hlength] using hlt)
      refine ⟨iff_of_true this (.inr (.inr ⟨limit, rfl, hpos, hlt⟩)), fun _ _ hroom => ?_⟩
      have := hroom limit rfl hpos
      omega
    · have hroom : ∀ limit ∈ capacity, 0 < nodes.size → (nodes.size : Int) ≤ limit :=
        fun limit hlimit hpos => Int.not_lt.1 fun hlt => hfull ⟨limit, hlimit, hpos, hlt⟩
      obtain ⟨net, hnet, hadded⟩ : ∃ net,
          (empty capacity).addNodes nodes .empty order = .ok net ∧
            HasAdded nodes capacity order net := by
        cases order with
        | nil => exact ⟨_, rfl, hasAdded_empty⟩
        | cons x rest =>
          refine addNodes_of_room hkeys hcall hstart fun limit hlimit => ?_
          rw [List.nil_append, hlength]
          exact hroom limit hlimit (hlength ▸ Nat.succ_pos _)
      rw [hnet]
      refine ⟨iff_of_false ?_ ?_, fun _ _ _ => ⟨net, rfl, hadded.shows hperm⟩⟩
      · rintro ⟨_, h⟩
        cases h
      · exact not_or.2 ⟨not_not_intro hgood.1, not_or.2 ⟨not_not_intro hgood.2, hfull⟩⟩
  · obtain ⟨e, he⟩ := herror hgood
    have hrun : ofNodes nodes capacity = .error (.network e) := by
      rw [ofNodes, he]
      rfl
    refine ⟨iff_of_true ⟨e, hrun⟩ ?_, fun hparents hacyclic => absurd ⟨hparents, hacyclic⟩ hgood⟩
    exact (not_and_or.1 hgood).imp_right .inl

/-- An observation around a constant, a copy of the constant, and the constant. -/
def triple : Assoc Node :=
  ⟨[("x", ⟨.observation, 2, ⟨.call "dnorm" [.name "m", .literal (.int 1) 0] none, ["m"]⟩⟩),
    ("y", ⟨.logical, 0, ⟨.name "m", ["m"]⟩⟩),
    ("m", ⟨.logical, 0, ⟨.literal (.int 3) 0, []⟩⟩)]⟩

theorem callable_triple : Callable triple := by
  -- the children of the constant see it as a float
  have seen {v : Value} (h : Seen triple "m" v) : v = .tensor (.float 3) := by
    cases h with
    | logical hn _ _ hv ht =>
      cases hn
      cases hv
      cases ht
      rfl
    | other hn hkind =>
      cases hn
      exact absurd rfl hkind
  intro x n hn values hvalues
  have hx := Assoc.mem_of_get? hn
  simp only [triple, List.mem_cons, Prod.mk.injEq, List.not_mem_nil, or_false] at hx
  rcases hx with ⟨rfl, rfl⟩ | ⟨rfl, rfl⟩ | ⟨rfl, rfl⟩
  · have hm := seen (hvalues "m" (List.mem_cons_self ..))
    simp only [Node.parents, List.map_cons, List.map_nil, hm]
    refine ⟨_, rfl, fun hkind => ?_⟩
    cases hkind
  · have hm := seen (hvalues "m" (List.mem_cons_self ..))
    simp only [Node.parents, List.map_cons, List.map_nil, hm]
    exact ⟨_, rfl, fun _ => ⟨_, rfl⟩⟩
  · exact ⟨_, rfl, fun _ => ⟨_, rfl⟩⟩

/-- Three nodes fit into a network with room for three. -/
theorem ofNodes_shows_triple :
    ∃ net, ofNodes triple (some 3) = .ok net ∧ net.Shows triple ∧
      net.skeleton.names = ["m", "x", "y"] ∧ net.observedNames = ["x"] := by
  obtain ⟨herror, hshows⟩ := ofNodes_shows (by decide) callable_triple (some 3)
  have hrun : ∃ net, ofNodes triple (some 3) = .ok net ∧ net.skeleton.names = ["m", "x", "y"] ∧
      net.observedNames = ["x"] := ⟨_, rfl, rfl, rfl⟩
  obtain ⟨net, hnet, hnames, hobserved⟩ := hrun
  have hgood := mt herror.2 fun ⟨e, he⟩ => by
    rw [hnet] at he
    cases he
  simp only [not_or, not_not] at hgood
  obtain ⟨net', hnet', hnodes⟩ := hshows hgood.1 hgood.2.1 fun limit hlimit _ => by
    cases hlimit
    decide
  cases hnet.symm.trans hnet'
  exact ⟨net, hnet, hnodes, hnames, hobserved⟩

/-- A number that is too large for a float. -/
def large : Generator := ⟨.literal (.int ((2 ^ 256) ^ 4)) 0, []⟩

/-- A capacity below zero is below the number of nodes even if there are none, but it is no error
then: what there must be room for is a vertex. And a number can be too large for a float. -/
theorem ofNodes_exceptions : (¬ ∀ (nodes : Assoc Node) (capacity : Option Int),
    nodes.keys.Nodup → Callable nodes →
      ((∃ e, ofNodes nodes capacity = .error (.network e)) ↔
        ¬ ParentsExist nodes ∨ ¬ (dependencies nodes).Acyclic ∨
          ∃ limit ∈ capacity, limit < nodes.size)) ∧
    large.call [] .empty = .ok (.number (.int ((2 ^ 256) ^ 4))) ∧
      ofNodes ⟨[("n", ⟨.logical, 0, large⟩)]⟩ none = .error (.evaluation .overflow) := by
  have hcall : large.call [] .empty = .ok (.number (.int ((2 ^ 256) ^ 4))) := rfl
  have hfloats : (Value.number (.int ((2 ^ 256) ^ 4))).floats? = .error .overflow := by
    have hinf : (Binary64.ofInt ((2 ^ 256) ^ 4)).isInf := by decide +kernel
    simp only [Value.floats?, Value.float?, Number.toFloat?, hinf, if_true]
    rfl
  refine ⟨fun claim => ?_, hcall, ?_⟩
  · have h := (claim .empty (some (-1)) List.nodup_nil nofun).2 (.inr (.inr ⟨-1, rfl, by decide⟩))
    obtain ⟨e, he⟩ := h
    cases he
  · have hgenerated : generatedAt .empty ⟨.logical, 0, large⟩ =
        .ok (.number (.int ((2 ^ 256) ^ 4))) := rfl
    have hnode : addNode (.empty none) .empty "n" ⟨.logical, 0, large⟩ =
        .error (.evaluation .overflow) := by
      simp only [addNode, hgenerated, ok_bind, hfloats]
      rfl
    have horder : nodeOrder ⟨[("n", ⟨.logical, 0, large⟩)]⟩ = .ok ["n"] := rfl
    have hget : Assoc.get? ⟨[("n", ⟨.logical, 0, large⟩)]⟩ "n" =
        some (⟨.logical, 0, large⟩ : Node) := rfl
    simp only [ofNodes, horder, ok_bind, addNodes, hget, hnode]
    rfl

end Network

end PlateModel
