import PlateModel.Proofs.Elimination.Live
import PlateModel.Proofs.Network.Query
import PlateModel.Proofs.Network.Runs

/-!
# Live factors of a network

* `Network.named_factorGraph`: the factors of a network are those of its stochastic vertices.
* `Network.query_live`: what holds of the factors at any point of a query.
-/

namespace PlateModel

/-- The names of the stochastic vertices by number. -/
def Skeleton.stochasticNames (s : Skeleton) : List String :=
  (s.vertices.filter (·.role.isStochastic)).map (·.name)

namespace Network

open Factors

variable {n : Network} {x : String} {evidence : List (String × Value)} {fs₀ fs : Factors Value}
  {done rest : List String}

theorem names_factorGraph : n.factorGraph.map (·.1) = n.skeleton.names := by
  simp [factorGraph, Function.comp_def]

theorem factor_of_mem {f : Factor Value} (h : (x, some f) ∈ n.factorGraph) :
    x ∈ n.skeleton.names ∧ n.factor x = .ok f := by
  obtain ⟨y, hy, heq⟩ := List.mem_map.1 h
  obtain ⟨rfl, hf⟩ := Prod.mk.inj heq
  refine ⟨hy, ?_⟩
  cases hfactor : n.factor y with
  | error e => rw [hfactor] at hf; cases hf
  | ok f' => rw [hfactor] at hf; cases hf; rfl

theorem named_factorGraph (hn : n.skeleton.Sound) : n.factorGraph.Named where
  nodup := names_factorGraph (n := n) ▸ hn.nodup
  scope h := by
    obtain ⟨hx, hf⟩ := factor_of_mem h
    obtain ⟨d, ps, -, -, rfl⟩ := (factor_eq_ok hn hx).1 hf
    rfl
  parents h := by
    obtain ⟨hx, hf⟩ := factor_of_mem h
    obtain ⟨d, ps, -, hps, rfl⟩ := (factor_eq_ok hn hx).1 hf
    obtain ⟨ps', hps', hmem⟩ := hn.parents hx
    cases hps.symm.trans hps'
    intro u hu
    obtain ⟨i, j, hi, -, -⟩ := (hmem u).1 hu
    rw [names_factorGraph]
    exact List.mem_of_getElem? hi

/-- The vertices with factors are the stochastic ones. -/
theorem stochastic_factorGraph (hn : n.skeleton.Sound) :
    n.factorGraph.stochastic.map (·.1) = n.skeleton.stochasticNames := by
  have hfactor {v : Vertex} (hv : v ∈ n.skeleton.vertices) :
      ((n.factor v.name).toOption.map fun _ => v.name) =
        if v.role.isStochastic then some v.name else none := by
    obtain ⟨i, hfind⟩ := hn.find hv
    obtain ⟨ps, hps, -⟩ := hn.parents (List.mem_map_of_mem (f := (·.name)) hv)
    simp only [factor, hfind, hps, bind, Except.bind]
    cases v.role <;> rfl
  have hgraph : n.factorGraph.stochastic.map (·.1) = n.skeleton.vertices.filterMap fun v =>
      (n.factor v.name).toOption.map fun _ => v.name := by
    simp only [FactorGraph.stochastic, factorGraph, Skeleton.names, List.map_map,
      List.filterMap_map, List.map_filterMap, Function.comp_def, Option.map_map]
  rw [hgraph, Skeleton.stochasticNames, ← List.filterMap_eq_filter, List.map_filterMap]
  refine List.filterMap_congr fun v hv => (hfactor hv).trans ?_
  rw [Option.guard]
  cases v.role.isStochastic <;> rfl

theorem stochasticNames_sublist {s : Skeleton} : s.stochasticNames.Sublist s.names :=
  List.filter_sublist.map _

/-- What is not eliminated is the vertex that is asked for and those that are given. -/
theorem mem_eliminated :
    x ∈ n.factorGraph.eliminated y evidence ↔
      x ∈ n.skeleton.names ∧ ¬ (x = y ∨ x ∈ evidence.map (·.1)) := by
  rw [FactorGraph.eliminated, names_factorGraph, List.mem_filter]
  simp

/-- A query that has come so far goes on with the factors that it has. -/
theorem query_of_eliminateAll {o : Option (Factor Value)} (hx : n.factorGraph.find x = .ok o)
    (hstart : n.factorGraph.observe lawRules n.factorGraph.factors evidence = .ok fs₀)
    (hsplit : n.factorGraph.eliminated x evidence = done ++ rest)
    (hfs : fs₀.eliminateAll lawRules done = .ok fs) :
    n.query x evidence = (fs.eliminateAll lawRules rest >>= fun fs => fs.report lawRules) := by
  rw [query, PlateModel.query, hx, hstart, hsplit]
  simp only [eliminateAll_append, hfs, ok_bind]

/-- Let a network have the vertices and edges that any operations lead to, and let a query have
eliminated some of its variables. Then every factor is kept under its first variable, no variable is
there twice, and no factor mentions a variable that has been eliminated. The factors are made of
factors of vertices, each of which was used once at most. The next variable is eliminated without
loss: the product is kept under a name that no other factor has, or dropped if it has no variable
left. And when all have been eliminated, the variables of the factors are the stochastic ones among
the vertex that is asked for and those that are given, and nothing else is mentioned. -/
theorem query_live {capacity : Option Int} {calls : List Call}
    (hn : n.skeleton = ((empty capacity).after calls).skeleton)
    (hstart : n.factorGraph.observe lawRules n.factorGraph.factors evidence = .ok fs₀)
    (hsplit : n.factorGraph.eliminated x evidence = done ++ rest)
    (hfs : fs₀.eliminateAll lawRules done = .ok fs) :
    (∀ o, n.factorGraph.find x = .ok o → n.query x evidence =
        (fs.eliminateAll lawRules rest >>= fun fs => fs.report lawRules)) ∧
      fs.Stored ∧ (∀ f ∈ fs.values, ∀ y ∈ done, f.mentions y = false) ∧
      (∃ ts, (n.factorGraph.traced.observe lawRules.traced n.factorGraph.traced.factors evidence >>=
            fun ts => ts.eliminateAll lawRules.traced done) = .ok ts ∧ ts.plain = fs ∧
          (ts.values.flatMap (·.origins)).Nodup ∧
          ts.values.flatMap (·.origins) ⊆ n.skeleton.stochasticNames) ∧
      (∀ y fs', fs.eliminate lawRules y = .ok fs' → Eliminates lawRules fs y fs') ∧
      (rest = [] →
        (fs.values.flatMap (·.scope)).Perm
            (n.skeleton.stochasticNames.filter fun v => v = x ∨ v ∈ evidence.map (·.1)) ∧
          ∀ f ∈ fs.values, ∀ u, f.mentions u → u = x ∨ u ∈ evidence.map (·.1)) := by
  have hafter : ((empty capacity).after calls).Sound := (sound_empty capacity).after
  have hsound : n.skeleton.Sound := hn ▸ hafter.skeleton
  obtain ⟨ts, hts, rfl, hlive⟩ := (named_factorGraph hsound).live hstart hfs
  rw [names_factorGraph, stochastic_factorGraph hsound] at hlive
  have hnodup : n.skeleton.stochasticNames.Nodup := hsound.nodup.sublist stochasticNames_sublist
  have hstored : ts.plain.Stored := hlive.toStored.plain
  have hmem {f : Factor Value} (hf : f ∈ ts.plain.values) : ∃ t ∈ ts.values, t.plain = f := by
    rw [plain_values] at hf
    exact List.mem_map.1 hf
  refine ⟨fun o ho => query_of_eliminateAll ho hstart hsplit hfs, hstored, fun f hf y hy => ?_,
    ⟨ts, hts, rfl, hlive.origins, hlive.subset⟩, fun y fs' h => hstored.eliminates h, ?_⟩
  · obtain ⟨t, ht, rfl⟩ := hmem hf
    exact hlive.unmentioned t ht y hy
  · rintro rfl
    rw [List.append_nil] at hsplit
    have hleft {v : String} (hv : v ∈ n.skeleton.names) :
        v ∉ done ↔ v = x ∨ v ∈ evidence.map (·.1) := by
      rw [← hsplit, mem_eliminated, not_and, not_not]
      exact ⟨fun h => h hv, fun h _ => h⟩
    refine ⟨?_, fun f hf u hu => ?_⟩
    · have hscopes := hlive.scopes_perm hnodup
      have hfilter : n.skeleton.stochasticNames.filter (fun v => v ∉ done) =
          n.skeleton.stochasticNames.filter fun v => v = x ∨ v ∈ evidence.map (·.1) :=
        List.filter_congr fun v hv =>
          decide_eq_decide.2 (hleft (stochasticNames_sublist.subset hv))
      rw [hfilter] at hscopes
      rwa [plain_values, List.flatMap_map]
    · obtain ⟨t, ht, rfl⟩ := hmem hf
      obtain ⟨hname, hdone⟩ := hlive.of_mentions stochasticNames_sublist.subset ht hu
      exact (hleft hname).1 hdone

/-- A vertex without children, and its parent. -/
def pairNetwork : Network := (empty none).after
  [.stochastic "b" (.distribution .normal []) none false .missing,
    .stochastic "a" (.distribution .normal []) none false .missing, .edge "a" "b"]

/-- The child is dropped, and the factor of the parent is left. -/
theorem query_live_pair : ∃ fs : Factors Value,
    pairNetwork.factorGraph.factors.eliminateAll lawRules ["b"] = .ok fs ∧ fs.keys = ["a"] ∧
      fs.Stored ∧
      (fs.values.flatMap (·.scope)).Perm
        (pairNetwork.skeleton.stochasticNames.filter fun v => v = "a" ∨ v ∈ []) := by
  have hfs : pairNetwork.factorGraph.factors.eliminateAll lawRules ["b"] =
    .ok ⟨[("a", ⟨["a"], .distribution .normal [], []⟩)]⟩ := by with_unfolding_all rfl
  have hstart :
      pairNetwork.factorGraph.observe lawRules pairNetwork.factorGraph.factors [] = .ok _ := rfl
  have hsplit : pairNetwork.factorGraph.eliminated "a" ([] : List (String × Value)) = ["b"] ++ [] :=
    rfl
  obtain ⟨-, hstored, -, -, -, hend⟩ := query_live (n := pairNetwork) rfl hstart hsplit hfs
  exact ⟨_, hfs, rfl, hstored, (hend rfl).1⟩

end Network

end PlateModel
