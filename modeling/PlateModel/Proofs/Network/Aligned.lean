import Mathlib.Data.List.Forall2
import Mathlib.Data.List.Induction
import PlateModel.Proofs.Network.Runs

/-!
# The columns of a network are aligned

Of a network that has come about by any operations on an empty one, failed ones included, the
columns have equal lengths and belong together entry by entry; the lists beside the numbers of the
stochastic and of the deterministic vertices do so too. An entry that is looked up beside the number
of a vertex is therefore that of the vertex.

* `Columns.WellFormed`: what it means that columns are aligned.
* `wellFormed_columns`: the columns of a network whose parts fit together.
* `distributionOf_columns`, `functionOf_columns`: looking up beside a number.
* `network_after_calls`: the columns after any operations, and what adding an edge does to them.
-/

namespace PlateModel

/-- The columns of a network with some vertices are aligned. -/
structure Columns.WellFormed (c : Columns) (vertices : List Vertex) : Prop where
  names : c.names = vertices.map (·.name)
  isStochastic : c.isStochastic = vertices.map (·.role.isStochastic)
  length_isStochastic : c.isStochastic.length = c.names.length
  length_isObserved : c.isObserved.length = c.names.length
  nodes : c.nodes = List.range c.names.length
  /-- The table of numbers is the inverse of the list of names. -/
  numbers : ∀ name i, c.numbers.get? name = some i ↔ c.names[i]? = some name
  keys_numbers : c.numbers.keys = c.names
  ascending_stochastic : c.stochasticNumbers.Pairwise (· < ·)
  ascending_deterministic : c.deterministicNumbers.Pairwise (· < ·)
  mem_stochastic : ∀ i, i ∈ c.stochasticNumbers ↔ c.isStochastic[i]? = some true
  mem_deterministic : ∀ i, i ∈ c.deterministicNumbers ↔ c.isStochastic[i]? = some false
  distributions : List.Forall₂
    (fun i d => ∃ v k, vertices[i]? = some v ∧ v.role = .stochastic d k)
    c.stochasticNumbers c.distributions
  kernels : List.Forall₂
    (fun i k => ∃ v d, vertices[i]? = some v ∧ v.role = .stochastic d k)
    c.stochasticNumbers c.kernels
  functions : List.Forall₂
    (fun i f => ∃ v, vertices[i]? = some v ∧ v.role = .deterministic f)
    c.deterministicNumbers c.functions
  observed : ∀ i : Nat, c.isObserved[i]? = some true → c.isStochastic[i]? = some true
  values : ∀ name ∈ c.values.keys, ∃ i : Nat,
    c.numbers.get? name = some i ∧ c.isObserved[i]? = some true
  capacity : ∀ limit ∈ c.capacity, 0 ≤ limit → c.names.length ≤ limit
  edges : ∀ i j, c.edges.Edge i j → i ∈ c.nodes ∧ j ∈ c.nodes
  acyclic : c.edges.Acyclic

/-! ## Lists beside numbers -/

/-- The entries of a list that something is made of, beside their places. -/
theorem forall₂_filterMap {α β : Type} (g : α → Option β) (xs : List α) :
    List.Forall₂ (fun i b => ∃ a, xs[i]? = some a ∧ g a = some b)
      ((List.range xs.length).filter fun i => (xs[i]?).any fun a => (g a).isSome)
      (xs.filterMap g) := by
  induction xs using List.reverseRecOn with
  | nil => exact .nil
  | append_singleton xs x ih =>
    have old : (List.range xs.length).filter
        (fun i => ((xs ++ [x])[i]?).any fun a => (g a).isSome) =
        (List.range xs.length).filter fun i => (xs[i]?).any fun a => (g a).isSome := by
      refine List.filter_congr fun i hi => ?_
      rw [List.getElem?_append_left (List.mem_range.1 hi)]
    have kept : List.Forall₂ (fun i b => ∃ a, (xs ++ [x])[i]? = some a ∧ g a = some b)
        ((List.range xs.length).filter fun i => (xs[i]?).any fun a => (g a).isSome)
        (xs.filterMap g) := by
      refine ih.imp fun i b ⟨a, ha, hb⟩ => ⟨a, ?_, hb⟩
      rw [List.getElem?_append_left (List.getElem?_eq_some_iff.1 ha).1, ha]
    rw [List.length_append, List.length_singleton, List.range_succ, List.filter_append, old,
      List.filterMap_append]
    refine List.rel_append kept ?_
    cases hg : g x with
    | none => simp [hg]
    | some b => simp [hg]

namespace Network

variable {n : Network} {name : String} {i : Nat}

theorem mem_numbersOf {s : Skeleton} {b : Bool} :
    i ∈ s.numbersOf b ↔ (s.vertices.map (·.role.isStochastic))[i]? = some b := by
  simp only [Skeleton.numbersOf, List.mem_filter, List.mem_range, List.getElem?_map]
  rcases Nat.lt_or_ge i s.vertices.length with hi | hi
  · simp [hi]
  · simp [Nat.not_lt.2 hi]

theorem pairwise_numbersOf {s : Skeleton} {b : Bool} : (s.numbersOf b).Pairwise (· < ·) :=
  List.pairwise_lt_range.filter _

/-- What the vertices of one kind have stands beside their numbers. -/
theorem forall₂_numbersOf {β : Type} {b : Bool} (g : Role → Option β)
    (hg : ∀ r, (g r).isSome = decide (r.isStochastic = b)) (s : Skeleton) :
    List.Forall₂ (fun i a => ∃ v : Vertex, s.vertices[i]? = some v ∧ g v.role = some a)
      (s.numbersOf b) (s.vertices.filterMap fun v => g v.role) := by
  have h := forall₂_filterMap (fun v : Vertex => g v.role) s.vertices
  simp only [hg] at h
  exact h

theorem distribution?_eq_some {r : Role} {d : Value} :
    r.distribution? = some d ↔ ∃ k, r = .stochastic d k := by
  cases r <;> simp [Role.distribution?]

theorem kernel?_eq_some {r : Role} {k : Option Generator} :
    r.kernel? = some k ↔ ∃ d, r = .stochastic d k := by
  cases r <;> simp [Role.kernel?]

theorem function?_eq_some {r : Role} {f : Generator} :
    r.function? = some f ↔ r = .deterministic f := by
  cases r <;> simp [Role.function?]

/-- The columns of a network whose parts fit together are aligned. -/
theorem wellFormed_columns (hn : n.Sound) : n.columns.WellFormed n.skeleton.vertices where
  names := rfl
  isStochastic := rfl
  length_isStochastic := by simp [columns]
  length_isObserved := by
    rw [show n.columns.isObserved = n.observations.observed from rfl, hn.length_observed]
    exact Skeleton.length_names.symm
  nodes := by
    rw [show n.columns.names = n.skeleton.names from rfl, Skeleton.length_names]
    rfl
  numbers name i := by
    rw [numbers_columns]
    exact Skeleton.number?_eq_some hn.skeleton.nodup
  keys_numbers := by simp [columns, Assoc.keys]
  ascending_stochastic := pairwise_numbersOf
  ascending_deterministic := pairwise_numbersOf
  mem_stochastic _ := mem_numbersOf
  mem_deterministic _ := mem_numbersOf
  distributions := by
    refine (forall₂_numbersOf Role.distribution? (fun r => by cases r <;> rfl) n.skeleton).imp ?_
    rintro i d ⟨v, hv, hd⟩
    obtain ⟨k, hk⟩ := distribution?_eq_some.1 hd
    exact ⟨v, k, hv, hk⟩
  kernels := by
    refine (forall₂_numbersOf Role.kernel? (fun r => by cases r <;> rfl) n.skeleton).imp ?_
    rintro i k ⟨v, hv, hk⟩
    obtain ⟨d, hd⟩ := kernel?_eq_some.1 hk
    exact ⟨v, d, hv, hd⟩
  functions := by
    refine (forall₂_numbersOf Role.function? (fun r => by cases r <;> rfl) n.skeleton).imp ?_
    rintro i f ⟨v, hv, hf⟩
    exact ⟨v, hv, function?_eq_some.1 hf⟩
  observed i hi := by
    obtain ⟨v, hv, hrole⟩ := hn.observed hi
    simp [columns, hv, hrole]
  values name hname := by
    obtain ⟨value, hvalue⟩ := Assoc.mem_keys_iff.1 hname
    obtain ⟨i, hi, ho⟩ := hn.values hvalue
    exact ⟨i, by rw [numbers_columns, hi], ho⟩
  capacity limit hl hpos := by
    rw [show n.columns.names = n.skeleton.names from rfl, Skeleton.length_names]
    exact hn.capacity limit hl hpos
  edges i j hij := by
    obtain ⟨hi, hj⟩ := hn.skeleton.edges_lt hij
    exact ⟨List.mem_range.2 hi, List.mem_range.2 hj⟩
  acyclic := hn.skeleton.acyclic

/-! ## Looking up beside a number -/

/-- Beside the place of a number is what belongs to it. -/
theorem getElem?_idxOf {β : Type} {R : Nat → β → Prop} : ∀ {is : List Nat} {bs : List β},
    List.Forall₂ R is bs → i ∈ is → ∃ b, bs[is.idxOf i]? = some b ∧ R i b
  | j :: is, b :: bs, .cons hb h, hi => by
    by_cases hij : j = i
    · subst hij
      exact ⟨b, by simp, hb⟩
    · have hi : i ∈ is := (List.mem_cons.1 hi).resolve_left (Ne.symm hij)
      obtain ⟨c, hc, hR⟩ := getElem?_idxOf h hi
      exact ⟨c, by rw [List.idxOf_cons_ne _ hij]; exact hc, hR⟩

theorem distributionOf_columns (hn : n.Sound) (name : String) :
    n.columns.distributionOf name = n.skeleton.distribution name := by
  have aligned := wellFormed_columns hn
  rw [Columns.distributionOf, numberOf_columns, Skeleton.distribution, Skeleton.find]
  cases hi : n.skeleton.number name with
  | error e => rfl
  | ok i =>
    obtain ⟨v, hv, hentry⟩ := entry_isStochastic hi
    simp only [ok_bind, hv, hentry, pure, Except.pure]
    cases hrole : v.role with
    | deterministic f => rfl
    | stochastic d k =>
      have hmem : i ∈ n.columns.stochasticNumbers := by
        rw [aligned.mem_stochastic, aligned.isStochastic, List.getElem?_map, hv, Option.map_some,
          hrole]
        rfl
      obtain ⟨d', hd', w, k', hw, hrole'⟩ := getElem?_idxOf aligned.distributions hmem
      rw [hv] at hw
      cases hw
      rw [hrole] at hrole'
      cases hrole'
      exact Columns.entry_eq_ok.2 hd'

theorem functionOf_columns (hn : n.Sound) (name : String) :
    n.columns.functionOf name = n.skeleton.function name := by
  have aligned := wellFormed_columns hn
  rw [Columns.functionOf, numberOf_columns, Skeleton.function, Skeleton.find]
  cases hi : n.skeleton.number name with
  | error e => rfl
  | ok i =>
    obtain ⟨v, hv, hentry⟩ := entry_isStochastic hi
    simp only [ok_bind, hv, hentry, pure, Except.pure]
    cases hrole : v.role with
    | stochastic d k => rfl
    | deterministic f =>
      have hmem : i ∈ n.columns.deterministicNumbers := by
        rw [aligned.mem_deterministic, aligned.isStochastic, List.getElem?_map, hv,
          Option.map_some, hrole]
        rfl
      obtain ⟨f', hf', w, hw, hrole'⟩ := getElem?_idxOf aligned.functions hmem
      rw [hv] at hw
      cases hw
      rw [hrole] at hrole'
      cases hrole'
      exact Columns.entry_eq_ok.2 hf'

/-! ## Adding an edge -/

/-- Whether an edge can be added between vertices with some names and numbers: they differ, the edge
is new, and no path leads from its head to its tail. -/
def Joinable (edges : Digraph Nat) (u v : String) (i j : Nat) : Prop :=
  u ≠ v ∧ ¬ edges.Edge i j ∧ ¬ edges.Leads j i

/-- An edge between known vertices is added and nothing else is changed, or nothing is changed and
the answer says so. -/
theorem edit_edge (hn : n.Sound) {u v : String} {i j : Nat} (hi : n.skeleton.number? u = some i)
    (hj : n.skeleton.number? v = some j) :
    (Joinable n.columns.edges u v i j → (Call.edge u v).edit n.columns =
      (.ok (.edge true), { n.columns with edges := n.columns.edges ++ [(i, j)] })) ∧
    (¬ Joinable n.columns.edges u v i j → ((Call.edge u v).edit n.columns).2 = n.columns ∧
      ((Call.edge u v).edit n.columns).1 ≠ .ok (.edge true)) := by
  have names_eq : i = j ↔ u = v := by
    rw [Skeleton.number?_eq_some hn.skeleton.nodup] at hi hj
    constructor
    · rintro rfl
      exact Option.some.inj (hi.symm.trans hj)
    · rintro rfl
      obtain ⟨hi', hu⟩ := List.getElem?_eq_some_iff.1 hi
      obtain ⟨hj', hv⟩ := List.getElem?_eq_some_iff.1 hj
      exact (List.Nodup.getElem_inj_iff hn.skeleton.nodup).1 (hu.trans hv.symm)
  have hadd := addEdge_of_number (Skeleton.number_eq_ok.2 hi) (Skeleton.number_eq_ok.2 hj)
  have edges : n.columns.edges = n.skeleton.edges := rfl
  simp only [edit_columns, Call.perform, addEdge, hadd, edges, Joinable]
  by_cases hold : (i = j || n.skeleton.edges.contains (i, j)) = true
  · have hnot : ¬ (u ≠ v ∧ ¬ n.skeleton.edges.Edge i j ∧ ¬ n.skeleton.edges.Leads j i) := by
      rintro ⟨hne, hedge, -⟩
      simp only [Bool.or_eq_true, decide_eq_true_eq, List.contains_iff_mem] at hold
      rcases hold with hij | hmem
      · exact hne (names_eq.1 hij)
      · exact hedge hmem
    rw [if_pos hold]
    exact ⟨fun h => absurd h hnot, fun _ => ⟨rfl, fun h => by cases h⟩⟩
  · rw [if_neg hold]
    have hfree : u ≠ v ∧ ¬ n.skeleton.edges.Edge i j := by
      simp only [Bool.or_eq_true, decide_eq_true_eq, List.contains_iff_mem, not_or] at hold
      exact ⟨mt names_eq.2 hold.1, hold.2⟩
    by_cases hreach : n.skeleton.edges.reaches j i = true
    · rw [if_pos hreach]
      have hleads := Digraph.reaches_iff.1 hreach
      exact ⟨fun h => absurd hleads h.2.2, fun _ => ⟨rfl, fun h => by cases h⟩⟩
    · rw [if_neg hreach]
      have hleads := mt Digraph.reaches_iff.2 hreach
      exact ⟨fun _ => rfl, fun h => absurd ⟨hfree.1, hfree.2, hleads⟩ h⟩

end Network

open Network (Call)

/-- A network of any capacity that starts empty, after any operations, failed ones included. Its
columns are aligned with one another and with the vertices that the operations have added; they are
the columns of the network after the same operations, on which every further operation does the
same, and looking up beside the number of a vertex finds what belongs to the vertex. An edge between
known vertices is added if it can be, and nothing else changes; otherwise nothing changes. -/
theorem network_after_calls (capacity : Option Int) (calls : List Call) :
    let c := (Columns.empty capacity).after calls
    let n := (Network.empty capacity).after calls
    (c.WellFormed ((Columns.empty capacity).added calls) ∧ c.capacity = capacity) ∧
    (∀ u v i j, c.numbers.get? u = some i → c.numbers.get? v = some j →
      (Network.Joinable c.edges u v i j → (Call.edge u v).edit c =
        (.ok (.edge true), { c with edges := c.edges ++ [(i, j)] })) ∧
      (¬ Network.Joinable c.edges u v i j → ((Call.edge u v).edit c).2 = c ∧
        ((Call.edge u v).edit c).1 ≠ .ok (.edge true))) ∧
    (c = n.columns ∧ ∀ call : Call, call.edit c = ((call.perform n).1, (call.perform n).2.columns)) ∧
    ∀ name, c.distributionOf name = n.skeleton.distribution name ∧
      c.functionOf name = n.skeleton.function name := by
  intro c n
  have hc : c = n.columns := Network.after_columns (n := .empty capacity) calls
  have hn : n.Sound := (Network.sound_empty capacity).after
  obtain ⟨hvertices, hcapacity⟩ := Network.vertices_after (Network.sound_empty capacity) calls
  have hadded : n.skeleton.vertices = (Columns.empty capacity).added calls := hvertices
  rw [hc, ← hadded]
  refine ⟨⟨Network.wellFormed_columns hn, hcapacity⟩, fun u v i j hi hj => ?_,
    ⟨rfl, Network.edit_columns n⟩,
    fun name => ⟨Network.distributionOf_columns hn name, Network.functionOf_columns hn name⟩⟩
  rw [Network.numbers_columns] at hi hj
  exact Network.edit_edge hn hi hj

end PlateModel
