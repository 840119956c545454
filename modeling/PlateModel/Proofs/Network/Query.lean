import Mathlib.Algebra.Order.Field.Rat
import PlateModel.Elimination.Laws
import PlateModel.Proofs.Elimination.Answers
import PlateModel.Proofs.Graph.Order
import PlateModel.Proofs.Network.Built

/-!
# Queries and the order of vertices

Two graphs that list the same vertices in different orders answer a query with evidence in the same
way. Without evidence a query multiplies the factors of more vertices in some orders of the vertices
than in others: a vertex that shares a parent with one that leads to the vertex in question is
dropped if it is eliminated before this parent, and has its say otherwise. Where no vertex is in
such a place, or something is given, the order in which a network was built does not matter; where
one is, two orders and some laws tell the difference.

* `FactorGraph.Agrees`: the same vertices in another order; `FactorGraph.Agrees.query_eq` and
  `FactorGraph.Agrees.query_ne` are about queries to such graphs.
* `Network.exactQuery`: a query in exact arithmetic.
* `Skeleton.Agrees`: networks with the same vertices, edges and distributions.
* `Skeleton.Closed`: no vertex is in a place where it is dropped in some orders only.
* `Network.exactQuery_eq`: when queries to such networks have the same outcome.
-/

namespace PlateModel

open Relation

/-! ## Graphs of factors -/

namespace FactorGraph

/-- The same vertices, with the same parents and distributions. -/
structure Agrees {δ : Type} (g g' : FactorGraph δ) : Prop where
  names : ∀ x, x ∈ g.map (·.1) ↔ x ∈ g'.map (·.1)
  vertices : ∀ x, x ∈ g.families.vertices ↔ x ∈ g'.families.vertices
  parents : ∀ x ∈ g.families.vertices, ∀ u, u ∈ g.families.parents x ↔ u ∈ g'.families.parents x
  distribution : ∀ ⦃x f f'⦄, (x, f) ∈ g.stochastic → (x, f') ∈ g'.stochastic →
    f.distribution = f'.distribution

theorem mem_vertices {δ : Type} {g : FactorGraph δ} {x : String} :
    x ∈ g.families.vertices ↔ ∃ f, (x, f) ∈ g.stochastic := by
  simp [families]

theorem find_of_not_mem {δ : Type} {g : FactorGraph δ} {x : String} (h : x ∉ g.map (·.1)) :
    g.find x = .error (.network (.unknownVertex x)) := by
  have hlookup : g.lookup x = none := by
    refine Option.eq_none_iff_forall_ne_some.2 fun o ho => h ?_
    exact List.mem_map_of_mem (f := (·.1)) (Assoc.mem_of_get? (t := ⟨g⟩) ho)
  rw [find, hlookup]

section Vertices

variable {δ : Type} {g g' : FactorGraph δ} {v w : String}

theorem Agrees.feeds_iff (h : g.Agrees g') : g.families.Feeds v w ↔ g'.families.Feeds v w := by
  unfold Families.Feeds
  rw [← h.vertices, ← h.vertices]
  exact and_congr_right fun hw => and_congr_right fun _ => h.parents w hw v

theorem Agrees.leads_iff (h : g.Agrees g') : g.families.Leads v w ↔ g'.families.Leads v w := by
  have heq : g.families.Feeds = g'.families.Feeds := funext₂ fun _ _ => propext h.feeds_iff
  rw [Families.Leads, heq]

theorem Agrees.mentions_iff (h : g.Agrees g') (hv : v ∈ g.families.vertices) {u : String} :
    g.families.Mentions v u ↔ g'.families.Mentions v u :=
  or_congr_right (h.parents v hv u)

theorem Agrees.tied_iff {x : String} (h : g.Agrees g') :
    g.families.Tied x v w ↔ g'.families.Tied x v w := by
  unfold Families.Tied
  rw [← h.vertices, ← h.vertices]
  exact and_congr_right fun hv => and_congr_right fun hw => exists_congr fun u =>
    and_congr_right fun _ => and_congr (h.mentions_iff hv) (h.mentions_iff hw)

/-- No vertex is tied to one that leads to the vertex in question without leading to it. -/
def Closed (g : FactorGraph δ) (x : String) : Prop :=
  ∀ v w, g.families.Leads v x → g.families.Tied x v w → g.families.Leads w x

theorem Closed.leads {x : String} (h : g.Closed x) (hv : ReflTransGen (g.families.Tied x) x v) :
    g.families.Leads v x := by
  induction hv with
  | refl => exact .refl
  | tail _ hvw ih => exact h _ _ ih hvw

end Vertices

variable {𝕜 : Type} [Field 𝕜] [LinearOrder 𝕜] {n : Nat} {g g' : FactorGraph (List 𝕜)} {x : String}

theorem Agrees.weight_eq (h : g.Agrees g') (hg : g.Sound n) (hg' : g'.Sound n) {v : String}
    (hv : v ∈ g.families.vertices) : weight n g v = weight n g' v := by
  obtain ⟨f, hf⟩ := mem_vertices.1 hv
  obtain ⟨f', hf'⟩ := mem_vertices.1 ((h.vertices v).1 hv)
  rw [weight, weight, hg.lookup_stochastic hf, hg'.lookup_stochastic hf', Option.map_some,
    Option.map_some, h.distribution hf hf']

/-- In a graph where nothing but what leads to a vertex is tied to it, exactly the laws of the
vertices that lead to it are multiplied. -/
theorem Closed.mem_iff [NeZero n] (hclosed : g.Closed x) {ms : List String}
    (h : Multiplied n g x ms) {v : String} :
    v ∈ ms ↔ v ∈ g.families.vertices ∧ g.families.Leads v x :=
  ⟨fun hv => ⟨h.vertices hv, hclosed.leads (h.tied v hv)⟩, fun hv => h.leading v hv.1 hv.2⟩

/-- Where all vertices have the same uneven law, the answer tells how many laws are multiplied. -/
theorem Multiplied.answer_uneven {ms : List String} (h : Multiplied 2 g x ms)
    (huneven : ∀ y f, (y, f) ∈ g.stochastic → f.distribution = unevenLaw) (hg : g.Sound 2) :
    query exactRules g x [] = .ok (share (probability 2 (unevenLaw : List 𝕜) ^ ms.length) 0) := by
  have hweights : ms.map (weight 2 g) = ms.map fun _ => probability 2 unevenLaw := by
    refine List.map_congr_left fun v hv => ?_
    obtain ⟨f, hf⟩ := mem_vertices.1 (h.vertices hv)
    rw [weight, hg.lookup_stochastic hf, Option.map_some, Option.getD_some, huneven v f hf]
  rw [h.answer, hweights, List.map_const', List.prod_replicate]

variable [IsStrictOrderedRing 𝕜]

theorem Agrees.query_free_eq [NeZero n] (h : g.Agrees g') (hg : g.Sound n) (hg' : g'.Sound n)
    (hclosed : g.Closed x) (hx : x ∈ g.map (·.1)) :
    query exactRules g x ([] : List (String × Nat)) = query exactRules g' x [] := by
  by_cases hmem : x ∈ g.families.vertices
  · have hclosed' : g'.Closed x := fun v w hv hvw =>
      h.leads_iff.1 (hclosed v w (h.leads_iff.2 hv) (h.tied_iff.2 hvw))
    obtain ⟨ms, hms⟩ := (query_free hg hx).2 hmem
    obtain ⟨ms', hms'⟩ := (query_free hg' ((h.names x).1 hx)).2 ((h.vertices x).1 hmem)
    have hperm : ms.Perm ms' := (List.perm_ext_iff_of_nodup hms.nodup hms'.nodup).2 fun v => by
      rw [hclosed.mem_iff hms, hclosed'.mem_iff hms', h.vertices, h.leads_iff]
    have hweights : ms.map (weight n g) = ms.map (weight n g') :=
      List.map_congr_left fun v hv => h.weight_eq hg hg' (hms.vertices hv)
    rw [hms.answer, hms'.answer, hweights, (hperm.map _).prod_eq]
  · rw [(query_free hg hx).1 hmem,
      (query_free hg' ((h.names x).1 hx)).1 (mt (h.vertices x).2 hmem)]

/-- A query has the same outcome, if something is given, or whatever is tied to vertices that lead
to the one in question leads to it too. -/
theorem Agrees.query_eq [NeZero n] (h : g.Agrees g') (hg : g.Sound n) (hg' : g'.Sound n)
    {evidence : List (String × Nat)} (hnodup : (evidence.map (·.1)).Nodup)
    (hev : ∀ e ∈ evidence, e.1 ∈ g.families.vertices ∧ 1 ≤ e.2 ∧ e.2 ≤ n)
    (hclosed : evidence = [] → g.Closed x) :
    (query exactRules g x evidence).toOption = (query exactRules g' x evidence).toOption := by
  by_cases hx : x ∈ g.map (·.1)
  · by_cases hne : evidence = []
    · obtain rfl := hne
      rw [h.query_free_eq hg hg' (hclosed rfl) hx]
    · have hev' : ∀ e ∈ evidence, e.1 ∈ g'.families.vertices ∧ 1 ≤ e.2 ∧ e.2 ≤ n :=
        fun e he => ⟨(h.vertices e.1).1 (hev e he).1, (hev e he).2⟩
      obtain ⟨hsame, hdifferent⟩ := query_given hg hx hne hnodup hev
      obtain ⟨hsame', hdifferent'⟩ := query_given hg' ((h.names x).1 hx) hne hnodup hev'
      by_cases hk : ∃ e ∈ evidence, ∃ e' ∈ evidence, e.2 ≠ e'.2
      · obtain ⟨_, herror⟩ := hdifferent hk
        obtain ⟨_, herror'⟩ := hdifferent' hk
        rw [herror, herror']
        rfl
      · push Not at hk
        obtain ⟨e, he⟩ := List.exists_mem_of_ne_nil _ hne
        have hall : ∀ e' ∈ evidence, e'.2 = e.2 := fun e' he' => hk e' he' e he
        rw [hsame e.2 hall, hsame' e.2 hall]
  · have hx' : x ∉ g'.map (·.1) := mt (h.names x).2 hx
    rw [query, query, find_of_not_mem hx, find_of_not_mem hx']
    rfl

/-- A vertex that does not lead to the one in question is multiplied in one order and not in
another: in one, a variable is the first that this vertex and one that leads there both mention, and
in the other, all vertices that do not lead there are eliminated before the rest, children first. -/
theorem Agrees.query_ne (h : g.Agrees g') (hg : g.Sound 2) (hg' : g'.Sound 2)
    (huneven : ∀ y f, (y, f) ∈ g.stochastic → f.distribution = unevenLaw)
    (huneven' : ∀ y f, (y, f) ∈ g'.stochastic → f.distribution = unevenLaw)
    (hx : x ∈ g.families.vertices) {u v w : String} {ys zs zs' : List String}
    (hleads : g.families.Leads v x) (hv : v ∈ g.families.vertices) (hvu : g.families.Mentions v u)
    (hw : w ∈ g.families.vertices) (hwu : g.families.Mentions w u)
    (hwx : ¬ g.families.Leads w x) (horder : g.eliminated x ([] : List (String × Nat)) = u :: ys)
    (horder' : g'.eliminated x ([] : List (String × Nat)) = zs ++ zs')
    (hfirst : g'.families.ChildrenFirst zs)
    (hzs : ∀ y ∈ g'.families.vertices, ¬ g'.families.Leads y x → y ∈ zs) :
    (query exactRules g x ([] : List (String × Nat))).toOption ≠
      (query exactRules g' x []).toOption := by
  have hx' := (h.vertices x).1 hx
  obtain ⟨ms, hms⟩ := (query_free hg (g.stochastic_sublist.subset hx)).2 hx
  obtain ⟨ms', hms'⟩ := (query_free hg' (g'.stochastic_sublist.subset hx')).2 hx'
  have hleading : ∀ y ∈ ms', g.families.Leads y x := fun y hy =>
    h.leads_iff.2 (Classical.not_not.1 fun hyx =>
      hms'.not_mem_of_childrenFirst horder' hfirst hy (hzs y (hms'.vertices hy) hyx))
  have hwms : w ∈ ms := hms.mem_of_first horder hvu (hms.leading v hv hleads) hw hwu
  have hlength : ms'.length < ms.length := by
    have hnodup : (w :: ms').Nodup :=
      List.nodup_cons.2 ⟨fun hmem => hwx (hleading w hmem), hms'.nodup⟩
    have hsubset : w :: ms' ⊆ ms := List.cons_subset.2 ⟨hwms, fun y hy =>
      hms.leading y ((h.vertices y).2 (hms'.vertices hy)) (hleading y hy)⟩
    exact (List.subperm_of_subset hnodup hsubset).length_le
  rw [hms.answer_uneven huneven hg, hms'.answer_uneven huneven' hg']
  exact fun heq => hlength.ne' (share_unevenLaw_injective (Option.some.inj heq))

end FactorGraph

/-! ## Networks -/

namespace Skeleton

/-- The names of the vertices, with the distributions of those that are stochastic. -/
def laws (s : Skeleton) : List (String × Option Value) :=
  s.vertices.map fun v => (v.name, v.role.distribution?)

def IsStochastic (s : Skeleton) (x : String) : Prop := ∃ d, (x, some d) ∈ s.laws

/-- A stochastic vertex leads to another one through edges between stochastic vertices. -/
abbrev Feeds (s : Skeleton) : String → String → Prop :=
  ReflTransGen fun x y => s.IsStochastic y ∧ s.IsStochastic x ∧ s.IsParent x y

/-- Two stochastic vertices share a variable other than the one in question: each of them is this
variable, or has it for a parent. -/
def Tied (s : Skeleton) (x v w : String) : Prop :=
  s.IsStochastic v ∧ s.IsStochastic w ∧
    ∃ u ≠ x, (u = v ∨ s.IsParent u v) ∧ (u = w ∨ s.IsParent u w)

/-- Whatever is tied to a vertex that leads to the one in question leads to it too. -/
def Closed (s : Skeleton) (x : String) : Prop :=
  ∀ v w, s.Feeds v x → s.Tied x v w → s.Feeds w x

/-- The same vertices with the same distributions and the same edges, perhaps in another order. -/
structure Agrees (s t : Skeleton) : Prop where
  laws : s.laws.Perm t.laws
  edges : ∀ x y, s.IsParent x y ↔ t.IsParent x y

variable {s t : Skeleton} {x u : String}

theorem Agrees.symm (h : s.Agrees t) : t.Agrees s := ⟨h.laws.symm, fun x y => (h.edges x y).symm⟩

theorem Agrees.trans {r : Skeleton} (h : s.Agrees t) (h' : t.Agrees r) : s.Agrees r :=
  ⟨h.laws.trans h'.laws, fun x y => (h.edges x y).trans (h'.edges x y)⟩

theorem names_laws : s.laws.map (·.1) = s.names := by
  rw [laws, names, List.map_map]
  rfl

theorem mem_names {d : Option Value} (h : (x, d) ∈ s.laws) : x ∈ s.names :=
  names_laws (s := s) ▸ List.mem_map_of_mem (f := (·.1)) h

theorem IsStochastic.mem_names (h : s.IsStochastic x) : x ∈ s.names :=
  h.elim fun _ => Skeleton.mem_names

theorem Sound.find (hs : s.Sound) {v : Vertex} (hv : v ∈ s.vertices) :
    ∃ i, s.find v.name = .ok (i, v) := by
  obtain ⟨i, hi⟩ := List.mem_iff_getElem?.1 hv
  have hname : s.names[i]? = some v.name := by rw [names, List.getElem?_map, hi, Option.map_some]
  have hnumber := number_eq_ok.2 ((number?_eq_some hs.nodup).2 hname)
  refine ⟨i, ?_⟩
  simp only [Skeleton.find, hnumber, hi, bind, Except.bind]
  rfl

/-- The parents of a vertex are found by its name. -/
theorem Sound.parents (hs : s.Sound) (hx : x ∈ s.names) :
    ∃ ps, s.parents x = .ok ps ∧ ∀ u, u ∈ ps ↔ s.IsParent u x := by
  obtain ⟨j, hj⟩ := List.mem_iff_getElem?.1 hx
  have hnumber := number_eq_ok.2 ((number?_eq_some hs.nodup).2 hj)
  refine ⟨s.namesOf (s.edges.predecessors j), bind_eq_ok.2 ⟨j, hnumber, rfl⟩, fun u => ?_⟩
  simp only [namesOf, List.mem_filterMap, List.mem_mergeSort, Digraph.mem_predecessors, IsParent]
  constructor
  · rintro ⟨i, hij, hi⟩
    exact ⟨i, j, hi, hj, hij⟩
  · rintro ⟨i, k, hi, hk, hik⟩
    have hlt : k < s.names.length := length_names (s := s) ▸ (hs.edges_lt hik).2
    have hkj : k = j := (List.getElem?_inj hlt hs.nodup).1 (hk.trans hj.symm)
    exact ⟨i, hkj ▸ hik, hi⟩

/-- The names of the vertices in an order in which none is a parent of a later one. -/
theorem Sound.exists_childrenFirst (hs : s.Sound) :
    ∃ order : List String, order.Perm s.names ∧ order.Pairwise fun a b => ¬ s.IsParent a b := by
  have hedges {a b : String} (hab : s.namedEdges.Edge a b) : a ∈ s.names ∧ b ∈ s.names :=
    (isParent_iff.2 hab).mem_names
  obtain ⟨hperm, hordered⟩ := Digraph.topological_perm hs.nodup hedges hs.acyclic_namedEdges
  refine ⟨(s.namedEdges.topological s.names).reverse, (List.reverse_perm _).trans hperm, ?_⟩
  simp only [isParent_iff]
  exact List.pairwise_reverse.2 (hordered.pairwise (hperm.nodup_iff.2 hs.nodup))

end Skeleton

namespace Network

variable {𝕜 : Type}

/-- The factors of a network with exact laws. -/
def exactGraph (law : Value → List 𝕜) (n : Network) : FactorGraph (List 𝕜) :=
  n.factorGraph.map fun (x, f) => (x, f.map fun f => ⟨f.scope, law f.distribution, f.parents⟩)

/-- What is known of a vertex, given categories of others, in exact arithmetic. -/
def exactQuery [Field 𝕜] [DecidableEq 𝕜] (law : Value → List 𝕜) (n : Network) (x : String)
    (evidence : List (String × Nat)) : Except Fault 𝕜 :=
  PlateModel.query exactRules (n.exactGraph law) x evidence

variable {law : Value → List 𝕜} {n m : Network} {x : String} {f : Factor (List 𝕜)}

theorem names_exactGraph : (n.exactGraph law).map (·.1) = n.skeleton.names := by
  simp [exactGraph, factorGraph, Function.comp_def]

/-- Every stochastic vertex has a factor over itself, with its distribution and its parents. -/
theorem factor_eq_ok (hn : n.skeleton.Sound) (hx : x ∈ n.skeleton.names) {f : Factor Value} :
    n.factor x = .ok f ↔
      ∃ d ps, (x, some d) ∈ n.skeleton.laws ∧ n.skeleton.parents x = .ok ps ∧ f = ⟨[x], d, ps⟩ := by
  obtain ⟨v, hv, rfl⟩ := List.mem_map.1 hx
  obtain ⟨i, hfind⟩ := hn.find hv
  obtain ⟨ps, hps, -⟩ := hn.parents hx
  have hlaw {d : Value} : (v.name, some d) ∈ n.skeleton.laws ↔ v.role.distribution? = some d := by
    constructor
    · intro hd
      obtain ⟨w, hw, heq⟩ := List.mem_map.1 hd
      obtain ⟨hname, hrole⟩ := Prod.mk.inj heq
      have hwv : w = v := List.inj_on_of_nodup_map hn.nodup hw hv hname
      exact hwv ▸ hrole
    · exact fun hd => List.mem_map.2 ⟨v, hv, by rw [hd]⟩
  simp only [factor, hfind, hlaw, hps, bind, Except.bind]
  cases v.role with
  | stochastic d k =>
    simp only [Role.distribution?, Option.some.injEq, Except.ok.injEq, Factor.ofVertex, pure,
      Except.pure]
    constructor
    · rintro rfl
      exact ⟨d, ps, rfl, rfl, rfl⟩
    · rintro ⟨_, _, rfl, rfl, rfl⟩
      rfl
  | deterministic g =>
    constructor
    · intro h
      cases h
    · rintro ⟨_, _, h, _⟩
      cases h

theorem mem_stochastic (hn : n.skeleton.Sound) : (x, f) ∈ (n.exactGraph law).stochastic ↔
    ∃ d ps, (x, some d) ∈ n.skeleton.laws ∧ n.skeleton.parents x = .ok ps ∧
      f = ⟨[x], law d, ps⟩ := by
  have hexact : (x, f) ∈ (n.exactGraph law).stochastic ↔ x ∈ n.skeleton.names ∧
      ∃ f', n.factor x = .ok f' ∧ f = ⟨f'.scope, law f'.distribution, f'.parents⟩ := by
    rw [FactorGraph.mem_stochastic, exactGraph, factorGraph, List.map_map, List.mem_map]
    constructor
    · rintro ⟨y, hy, heq⟩
      obtain ⟨rfl, hf⟩ := Prod.mk.inj heq
      obtain ⟨f', hf', rfl⟩ := Option.map_eq_some_iff.1 hf
      refine ⟨hy, f', ?_, rfl⟩
      cases hfactor : n.factor y with
      | error e => rw [hfactor] at hf'; cases hf'
      | ok f => rw [hfactor] at hf'; cases hf'; rfl
    · rintro ⟨hx, f', hf', rfl⟩
      exact ⟨x, hx, by simp [hf', Except.toOption]⟩
  rw [hexact]
  constructor
  · rintro ⟨hx, f', hf', rfl⟩
    obtain ⟨d, ps, hd, hps, rfl⟩ := (factor_eq_ok hn hx).1 hf'
    exact ⟨d, ps, hd, hps, rfl⟩
  · rintro ⟨d, ps, hd, hps, rfl⟩
    have hx := Skeleton.mem_names hd
    exact ⟨hx, _, (factor_eq_ok hn hx).2 ⟨d, ps, hd, hps, rfl⟩, rfl⟩

theorem mem_vertices (hn : n.skeleton.Sound) :
    x ∈ (n.exactGraph law).families.vertices ↔ n.skeleton.IsStochastic x := by
  simp only [FactorGraph.mem_vertices, mem_stochastic hn, Skeleton.IsStochastic]
  constructor
  · rintro ⟨f, d, ps, hd, -⟩
    exact ⟨d, hd⟩
  · rintro ⟨d, hd⟩
    obtain ⟨ps, hps, -⟩ := hn.parents (Skeleton.mem_names hd)
    exact ⟨_, d, ps, hd, hps, rfl⟩

theorem mem_parents (hn : n.skeleton.Sound) (hx : n.skeleton.IsStochastic x) {u : String} :
    u ∈ (n.exactGraph law).families.parents x ↔ n.skeleton.IsParent u x := by
  have hvertex : x ∈ (n.exactGraph law).families.vertices := (mem_vertices hn).2 hx
  obtain ⟨f, hf⟩ := FactorGraph.mem_vertices.1 hvertex
  obtain ⟨d, ps, hd, hps, rfl⟩ := (mem_stochastic hn).1 hf
  have hnodup : ((n.exactGraph law).stochastic.map (·.1)).Nodup :=
    (names_exactGraph ▸ hn.nodup).sublist (FactorGraph.stochastic_sublist _)
  have hlookup : (n.exactGraph law).stochastic.lookup x = some ⟨[x], law d, ps⟩ :=
    Assoc.get?_of_mem (t := ⟨(n.exactGraph law).stochastic⟩) hnodup hf
  obtain ⟨ps', hps', hmem⟩ := hn.parents (Skeleton.mem_names hd)
  cases hps.symm.trans hps'
  show u ∈ (((n.exactGraph law).stochastic.lookup x).map (·.parents)).getD [] ↔ _
  rw [hlookup, Option.map_some, Option.getD_some, hmem]

theorem leads_exactGraph (hn : n.skeleton.Sound) {y : String} :
    (n.exactGraph law).families.Leads x y ↔ n.skeleton.Feeds x y := by
  have heq : (n.exactGraph law).families.Feeds = fun x y =>
      n.skeleton.IsStochastic y ∧ n.skeleton.IsStochastic x ∧ n.skeleton.IsParent x y := by
    funext x y
    refine propext ?_
    rw [Families.Feeds, mem_vertices hn, mem_vertices hn]
    exact and_congr_right fun hy => and_congr_right fun _ => mem_parents hn hy
  rw [Families.Leads, heq]

theorem mentions_exactGraph (hn : n.skeleton.Sound) (hx : n.skeleton.IsStochastic x) {u : String} :
    (n.exactGraph law).families.Mentions x u ↔ u = x ∨ n.skeleton.IsParent u x :=
  or_congr_right (mem_parents hn hx)

theorem tied_exactGraph (hn : n.skeleton.Sound) {v w : String} :
    (n.exactGraph law).families.Tied x v w ↔ n.skeleton.Tied x v w := by
  rw [Families.Tied, Skeleton.Tied, mem_vertices hn, mem_vertices hn]
  refine and_congr_right fun hv => and_congr_right fun hw => ?_
  simp only [mentions_exactGraph hn hv, mentions_exactGraph hn hw]

theorem closed_exactGraph (hn : n.skeleton.Sound) :
    (n.exactGraph law).Closed x ↔ n.skeleton.Closed x := by
  simp only [FactorGraph.Closed, Skeleton.Closed, leads_exactGraph hn, tied_exactGraph hn]

/-- Networks with the same vertices, edges and distributions have the same factors. -/
theorem agrees_exactGraph (hn : n.skeleton.Sound) (hm : m.skeleton.Sound)
    (h : n.skeleton.Agrees m.skeleton) : (n.exactGraph law).Agrees (m.exactGraph law) := by
  have hstochastic (x : String) : n.skeleton.IsStochastic x ↔ m.skeleton.IsStochastic x :=
    exists_congr fun d => h.laws.mem_iff
  refine ⟨fun x => ?_, fun x => ?_, fun x hx u => ?_, fun x f f' hf hf' => ?_⟩
  · rw [names_exactGraph, names_exactGraph, ← Skeleton.names_laws, ← Skeleton.names_laws]
    exact (h.laws.map _).mem_iff
  · rw [mem_vertices hn, mem_vertices hm, hstochastic]
  · have hx := (mem_vertices hn).1 hx
    rw [mem_parents hn hx, mem_parents hm ((hstochastic x).1 hx), h.edges]
  · obtain ⟨d, ps, hd, -, rfl⟩ := (mem_stochastic hn).1 hf
    obtain ⟨d', ps', hd', -, rfl⟩ := (mem_stochastic hm).1 hf'
    have heq := List.inj_on_of_nodup_map (Skeleton.names_laws ▸ hn.nodup) hd
      (h.laws.mem_iff.2 hd') rfl
    cases heq
    rfl

/-! ### Orders of the same vertices -/

/-- A network can be built with its vertices in any order. -/
theorem Built.exists_order (hn : n.Built) (xs : List String) (hxs : xs.Perm n.skeleton.names) :
    ∃ m : Network, m.Built ∧ m.skeleton.names = xs ∧ n.skeleton.Agrees m.skeleton := by
  have hcomp : (Relation.Comp (· = List.map Vertex.name ·) List.Perm) xs n.skeleton.vertices := by
    rw [List.eq_map_comp_perm]
    exact hxs
  obtain ⟨vs, rfl, hvs⟩ := hcomp
  obtain ⟨m, hm, hvertices, hparent⟩ := hn.exists_perm hvs
  refine ⟨m, hm, by rw [Skeleton.names, hvertices], ?_, fun x y => (hparent x y).symm⟩
  rw [Skeleton.laws, Skeleton.laws, hvertices]
  exact hvs.symm.map _

theorem eliminated_exactGraph :
    (n.exactGraph law).eliminated x ([] : List (String × Nat)) =
      n.skeleton.names.filter (· ≠ x) := by
  rw [FactorGraph.eliminated, names_exactGraph]
  exact List.filter_congr fun y _ => by simp

/-- Any vertex can be the first of a network. -/
theorem Built.exists_first (law : Value → List 𝕜) (hn : n.Built) {u : String}
    (hu : u ∈ n.skeleton.names) (hux : u ≠ x) :
    ∃ m : Network, m.Built ∧ n.skeleton.Agrees m.skeleton ∧
      ∃ ys, (m.exactGraph law).eliminated x ([] : List (String × Nat)) = u :: ys := by
  obtain ⟨before, after, hnames⟩ := List.append_of_mem hu
  obtain ⟨m, hm, hm', hagrees⟩ := hn.exists_order (u :: (before ++ after))
    (hnames ▸ List.perm_middle.symm)
  refine ⟨m, hm, hagrees, (before ++ after).filter (· ≠ x), ?_⟩
  rw [eliminated_exactGraph, hm']
  exact List.filter_cons_of_pos (decide_eq_true hux)

/-- A network can be built with those stochastic vertices first that do not lead to a vertex, each
after its children. -/
theorem Built.exists_childrenFirst (law : Value → List 𝕜) (hn : n.Built) (x : String) :
    ∃ m : Network, m.Built ∧ n.skeleton.Agrees m.skeleton ∧ ∃ zs zs',
      (m.exactGraph law).eliminated x ([] : List (String × Nat)) = zs ++ zs' ∧
      (m.exactGraph law).families.ChildrenFirst zs ∧
      ∀ y ∈ (m.exactGraph law).families.vertices, ¬ (m.exactGraph law).families.Leads y x →
        y ∈ zs := by
  classical
  obtain ⟨order, horder, hlast⟩ := hn.sound.exists_childrenFirst
  let aside (y : String) : Bool :=
    decide (y ∈ (n.exactGraph law).families.vertices ∧ ¬ (n.exactGraph law).families.Leads y x)
  obtain ⟨m, hm, hnames, hagrees⟩ := hn.exists_order
    (order.filter aside ++ order.filter fun y => !aside y)
    ((List.filter_append_perm aside order).trans horder)
  have hgraph : (n.exactGraph law).Agrees (m.exactGraph law) :=
    agrees_exactGraph hn.sound hm.sound hagrees
  have hmem {y : String} : y ∈ order.filter aside ↔
      y ∈ (m.exactGraph law).families.vertices ∧ ¬ (m.exactGraph law).families.Leads y x := by
    rw [List.mem_filter, decide_eq_true_iff, hgraph.vertices, hgraph.leads_iff]
    refine and_iff_right_of_imp fun hy => horder.mem_iff.2 ?_
    exact ((mem_vertices hn.sound).1 ((hgraph.vertices y).2 hy.1)).mem_names
  have hchild {y c : String} (hc : c ∈ (m.exactGraph law).families.vertices) :
      y ∈ (m.exactGraph law).families.parents c ↔ n.skeleton.IsParent y c := by
    rw [mem_parents hm.sound ((mem_vertices hm.sound).1 hc), hagrees.edges]
  refine ⟨m, hm, hagrees, order.filter aside, (order.filter fun y => !aside y).filter (· ≠ x), ?_,
    Families.childrenFirst_of_pairwise ((horder.nodup_iff.2 hn.sound.nodup).filter _)
      (fun y hy => (hmem.1 hy).1) (fun y hy c hc hyc => ?_) ?_, fun y hy hyx => hmem.2 ⟨hy, hyx⟩⟩
  · rw [eliminated_exactGraph, hnames, List.filter_append, List.filter_eq_self.2 fun y hy => ?_]
    rw [decide_eq_true_iff]
    rintro rfl
    exact (hmem.1 hy).2 .refl
  · obtain ⟨hy, hyx⟩ := hmem.1 hy
    refine ⟨hmem.2 ⟨hc, fun hcx => hyx (.head ⟨hc, hy, hyc⟩ hcx)⟩, ?_⟩
    rintro rfl
    exact hn.sound.acyclic_namedEdges.ne (Skeleton.isParent_iff.1 ((hchild hc).1 hyc)) rfl
  · refine (hlast.filter aside).imp_of_mem fun _ hb hab hp => hab ?_
    exact (hchild (hmem.1 hb).1).1 hp

section Laws

variable [Field 𝕜] [LinearOrder 𝕜] {count : Nat}

theorem sound_exactGraph (hn : n.skeleton.Sound)
    (hlaw : ∀ x d, (x, some d) ∈ n.skeleton.laws → IsPositiveLaw count (law d)) :
    (n.exactGraph law).Sound count where
  nodup := names_exactGraph ▸ hn.nodup
  scope x f hf := by
    obtain ⟨d, ps, -, -, rfl⟩ := (mem_stochastic hn).1 hf
    rfl
  law x f hf := by
    obtain ⟨d, ps, hd, -, rfl⟩ := (mem_stochastic hn).1 hf
    exact hlaw x d hd

/-- Two networks that differ only in the order in which they were built, in which all distributions
are positive laws on the same number of categories. -/
structure Reordered (law : Value → List 𝕜) (count : Nat) (n m : Network) : Prop where
  built : n.Built
  built' : m.Built
  agrees : n.skeleton.Agrees m.skeleton
  positive : ∀ x d, (x, some d) ∈ n.skeleton.laws → IsPositiveLaw count (law d)

theorem Reordered.positive' (h : Reordered law count n m) (x : String) (d : Value)
    (hd : (x, some d) ∈ m.skeleton.laws) : IsPositiveLaw count (law d) :=
  h.positive x d (h.agrees.laws.mem_iff.2 hd)

theorem Reordered.exactGraph (h : Reordered law count n m) :
    (n.exactGraph law).Sound count ∧ (m.exactGraph law).Sound count ∧
      (n.exactGraph law).Agrees (m.exactGraph law) :=
  ⟨sound_exactGraph h.built.sound h.positive, sound_exactGraph h.built'.sound h.positive',
    agrees_exactGraph h.built.sound h.built'.sound h.agrees⟩

variable [IsStrictOrderedRing 𝕜]

theorem Reordered.query_eq (h : Reordered law count n m)
    {evidence : List (String × Nat)} (hnodup : (evidence.map (·.1)).Nodup)
    (hev : ∀ e ∈ evidence, n.skeleton.IsStochastic e.1 ∧ 1 ≤ e.2 ∧ e.2 ≤ count)
    (hclosed : evidence = [] → n.skeleton.Closed x) :
    (n.exactQuery law x evidence).toOption = (m.exactQuery law x evidence).toOption := by
  have hclosed' (hnil : evidence = []) : (n.exactGraph law).Closed x :=
    (closed_exactGraph h.built.sound).2 (hclosed hnil)
  by_cases hcount : count = 0
  · -- nothing is stochastic here, so any number of categories would do
    have hnone : ∀ x d, (x, some d) ∉ n.skeleton.laws := by
      intro x d hd
      have hlength := (h.positive x d hd).length_eq
      have hsum := (h.positive x d hd).sum_eq
      rw [List.length_eq_zero_iff.1 (hlength.trans hcount)] at hsum
      exact zero_ne_one hsum
    have hone : Reordered law 1 n m :=
      ⟨h.built, h.built', h.agrees, fun x d hd => absurd hd (hnone x d)⟩
    obtain ⟨hn, hm, hagrees⟩ := hone.exactGraph
    exact hagrees.query_eq hn hm hnodup
      (fun e he => (hev e he).1.elim fun d hd => absurd hd (hnone e.1 d)) hclosed'
  · have : NeZero count := ⟨hcount⟩
    obtain ⟨hn, hm, hagrees⟩ := h.exactGraph
    exact hagrees.query_eq hn hm hnodup
      (fun e he => ⟨(mem_vertices h.built.sound).2 (hev e he).1, (hev e he).2⟩) hclosed'

/-- Where a vertex that does not lead to the one in question is tied to one that does, some laws and
two orders give different answers. -/
theorem Built.exists_query_ne (hn : n.Built) (hclosed : ¬ n.skeleton.Closed x) :
    ∃ (n' m' : Network) (law' : Value → List 𝕜), Reordered law' 2 n' m' ∧
      n.skeleton.Agrees n'.skeleton ∧
      (n'.exactQuery law' x []).toOption ≠ (m'.exactQuery law' x []).toOption := by
  simp only [Skeleton.Closed, not_forall] at hclosed
  obtain ⟨v, w, hvx, ⟨hv, hw, u, hux, hvu, hwu⟩, hwx⟩ := hclosed
  let law' : Value → List 𝕜 := fun _ => unevenLaw
  have hu : u ∈ n.skeleton.names := hvu.elim (fun h => h ▸ hv.mem_names) (·.mem_names.1)
  obtain ⟨n', hn', hagrees, ys, horder⟩ := hn.exists_first law' hu hux
  obtain ⟨m', hm', hagrees', zs, zs', horder', hfirst, hzs⟩ :=
    hn.exists_childrenFirst law' x
  have hreordered : Reordered law' 2 n' m' :=
    ⟨hn', hm', hagrees.symm.trans hagrees', fun _ _ _ => isPositiveLaw_unevenLaw⟩
  obtain ⟨hsound, hsound', hgraph⟩ := hreordered.exactGraph
  have huneven {k : Network} (hk : k.Built) (y : String) (f : Factor (List 𝕜))
      (hf : (y, f) ∈ (k.exactGraph law').stochastic) : f.distribution = unevenLaw := by
    obtain ⟨_, _, -, -, rfl⟩ := (mem_stochastic hk.sound).1 hf
    rfl
  have hfrom : (n.exactGraph law').Agrees (n'.exactGraph law') :=
    agrees_exactGraph hn.sound hn'.sound hagrees
  have vertex {y : String} (hy : n.skeleton.IsStochastic y) :
      y ∈ (n.exactGraph law').families.vertices := (mem_vertices hn.sound).2 hy
  have mention {y : String} (hy : n.skeleton.IsStochastic y)
      (huy : u = y ∨ n.skeleton.IsParent u y) : (n'.exactGraph law').families.Mentions y u :=
    (hfrom.mentions_iff (vertex hy)).1 ((mentions_exactGraph hn.sound hy).2 huy)
  have hx : n.skeleton.IsStochastic x := by
    rcases hvx.cases_tail with rfl | ⟨_, -, hx, -⟩
    · exact hv
    · exact hx
  refine ⟨n', m', law', hreordered, hagrees, hgraph.query_ne hsound hsound' (huneven hn')
    (huneven hm') ((hfrom.vertices x).1 (vertex hx)) ?_ ((hfrom.vertices v).1 (vertex hv))
    (mention hv hvu) ((hfrom.vertices w).1 (vertex hw)) (mention hw hwu) ?_ horder horder' hfirst
    hzs⟩
  · exact hfrom.leads_iff.1 ((leads_exactGraph hn.sound).2 hvx)
  · exact fun hleads => hwx ((leads_exactGraph hn.sound).1 (hfrom.leads_iff.2 hleads))

/-- In two networks that differ only in the order in which they were built, a query has the same
outcome if something is given, or if whatever is tied to a vertex that leads to the one in question
leads to it too. Otherwise the same vertices can be built in two orders, with positive laws, such
that the answers differ. -/
theorem exactQuery_eq (h : Reordered law count n m) {evidence : List (String × Nat)}
    (hnodup : (evidence.map (·.1)).Nodup)
    (hev : ∀ e ∈ evidence, n.skeleton.IsStochastic e.1 ∧ 1 ≤ e.2 ∧ e.2 ≤ count) :
    (evidence ≠ [] ∨ n.skeleton.Closed x →
      (n.exactQuery law x evidence).toOption = (m.exactQuery law x evidence).toOption) ∧
    (¬ n.skeleton.Closed x → ∃ (n' m' : Network) (law' : Value → List 𝕜), Reordered law' 2 n' m' ∧
      n.skeleton.Agrees n'.skeleton ∧
      (n'.exactQuery law' x []).toOption ≠ (m'.exactQuery law' x []).toOption) :=
  ⟨fun hsame => h.query_eq hnodup hev fun hnil => hsame.resolve_left (not_not_intro hnil),
    h.built.exists_query_ne⟩

end Laws

/-! ## A parent with two children -/

/-- The exact value of a finite float. -/
def rational (x : Float) : ℚ :=
  match Binary64.parts x with
  | .finite negative m e => (if negative then -1 else 1) * m * 2 ^ e
  | _ => 0

/-- The exact probabilities of categories. -/
def categoryLaw (v : Value) : List ℚ :=
  match v.distribution? with
  | some ⟨.categorical, .tensor t :: _⟩ => t.floats.map rational
  | _ => []

/-- A vertex `p` with children `x` and `c`, of two categories each, added in some order. -/
def fork (order : List String) : Network :=
  let weights (name : String) : List Float :=
    if name = "x" then [0.25, 0.75] else if name = "c" then [0.75, 0.25] else [0.5, 0.5]
  let add (n : Network) (name : String) : Network :=
    (n.addStochastic name (Family.ofCategories (weights name)) none false .missing).2
  let join (n : Network) (parent child : String) : Network :=
    match n.addEdge parent child with
    | .ok (_, n) => n
    | .error _ => n
  join (join (order.foldl add (.empty none)) "p" "x") "p" "c"

theorem built_fork (order : List String) : (fork order).Built := by
  have join {n : Network} (hn : n.Built) (parent child : String) :
      (match n.addEdge parent child with
        | .ok (_, n) => n
        | .error _ => n : Network).Built := by
    cases h : n.addEdge parent child with
    | ok r => exact hn.edge h
    | error e => exact hn
  have add (order : List String) {n : Network} (hn : n.Built) (law : String → Value) :
      (order.foldl (fun n x => (n.addStochastic x (law x) none false .missing).2) n).Built := by
    induction order generalizing n with
    | nil => exact hn
    | cons name order ih => exact ih (hn.stochastic ..)
  exact join (join (add order (.empty none) _) "p" "x") "p" "c"

theorem agrees_fork :
    (fork ["p", "x", "c"]).skeleton.Agrees (fork ["c", "p", "x"]).skeleton where
  laws := show ([_, _] ++ [_] : List _).Perm ([_] ++ [_, _]) from List.perm_append_comm
  edges x y := by
    rw [Skeleton.isParent_iff, Skeleton.isParent_iff]
    exact Iff.rfl

theorem isPositiveLaw_fork {x : String} {d : Value}
    (h : (x, some d) ∈ (fork ["p", "x", "c"]).skeleton.laws) : IsPositiveLaw 2 (categoryLaw d) := by
  have hall : ∀ d ∈ (fork ["p", "x", "c"]).skeleton.laws.filterMap (·.2),
      IsPositiveLaw 2 (categoryLaw d) := by
    decide +kernel
  exact hall d (List.mem_filterMap.2 ⟨_, h, rfl⟩)

theorem reordered_fork :
    Reordered categoryLaw 2 (fork ["p", "x", "c"]) (fork ["c", "p", "x"]) :=
  ⟨built_fork _, built_fork _, agrees_fork, fun _ _ => isPositiveLaw_fork⟩

/-- When the parent is the one in question, its children are not tied to it. -/
theorem closed_fork : (fork ["p", "x", "c"]).skeleton.Closed "p" := by
  have hroot (u : String) : ¬ (fork ["p", "x", "c"]).skeleton.IsParent u "p" := by
    rw [Skeleton.isParent_iff]
    show (u, "p") ∉ [("p", "x"), ("p", "c")]
    simp
  intro v w hv hvw
  rcases hv.cases_tail with rfl | ⟨u, -, -, -, hparent⟩
  · obtain ⟨-, -, u, hu, hmention, -⟩ := hvw
    exact (hmention.elim hu (hroot u)).elim
  · exact (hroot u hparent).elim

/-- If the category of one child is given, the other one is certain in either order; what is known
of the parent without evidence does not depend on the order either. -/
theorem exactQuery_eq_fork :
    ((fork ["p", "x", "c"]).exactQuery categoryLaw "x" [("c", 2)]).toOption =
      ((fork ["c", "p", "x"]).exactQuery categoryLaw "x" [("c", 2)]).toOption ∧
    ((fork ["p", "x", "c"]).exactQuery categoryLaw "p" []).toOption =
      ((fork ["c", "p", "x"]).exactQuery categoryLaw "p" []).toOption := by
  refine ⟨(exactQuery_eq reordered_fork ?_ ?_).1 (.inl (List.cons_ne_nil _ _)),
    (exactQuery_eq reordered_fork ?_ ?_).1 (.inr closed_fork)⟩
  · exact List.nodup_singleton "c"
  · exact List.forall_mem_singleton.2
      ⟨⟨_, .tail _ (.tail _ (.head _))⟩, by decide, by decide⟩
  · exact List.nodup_nil
  · exact List.forall_mem_nil _

/-- Without evidence, a child that was added after the parent of both counts, and one that was
added before this does not. -/
theorem exactQuery_order :
    (fork ["p", "x", "c"]).Built ∧ (fork ["c", "p", "x"]).Built ∧
      (fork ["p", "x", "c"]).skeleton.Agrees (fork ["c", "p", "x"]).skeleton ∧
      (∀ x d, (x, some d) ∈ (fork ["p", "x", "c"]).skeleton.laws →
        IsPositiveLaw 2 (categoryLaw d)) ∧
      ((fork ["p", "x", "c"]).exactQuery categoryLaw "x" []).toOption = some (1 / 2) ∧
      ((fork ["c", "p", "x"]).exactQuery categoryLaw "x" []).toOption = some (1 / 4) :=
  ⟨built_fork _, built_fork _, agrees_fork, fun _ _ => isPositiveLaw_fork, by decide +kernel,
    by decide +kernel⟩

end Network

end PlateModel
