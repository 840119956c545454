import PlateModel.Proofs.Graph.Separation
import PlateModel.Proofs.Network.Built

/-!
# Conditional independence is separation

In every network that can be built, two vertices are told to be independent given others if and only
if every simple path between them in the underlying undirected graph is blocked by these.

* `Network.independent_iff_blocked`: the answer to a question for independence.
-/

namespace PlateModel.Network

/-- Vertices are found by their names. -/
theorem conditioningSet_of_names {n : Network} (hn : n.skeleton.Sound) {ks : List Nat}
    {zs : List String} (hzs : ks.map (n.skeleton.names[·]?) = zs.map some) :
    n.conditioningSet (some zs) = .ok ks := by
  show zs.mapM n.skeleton.number = .ok ks
  induction ks generalizing zs with
  | nil =>
    obtain rfl : zs = [] := by simpa using hzs
    rfl
  | cons k ks ih =>
    cases zs with
    | nil => cases hzs
    | cons z zs =>
      obtain ⟨hk, hks⟩ := List.cons.inj hzs
      have hnumber : n.skeleton.number z = .ok k :=
        Skeleton.number_eq_ok.2 ((Skeleton.number?_eq_some hn.nodup).2 hk)
      rw [List.mapM_cons, hnumber, ih hks]
      rfl

/-- In every network that can be built, a question whether two vertices are independent given others
has an answer, and the answer is yes if and only if the given vertices block every simple path
between the two. -/
theorem independent_iff_blocked {n : Network} (hn : n.Built) {i j : Nat} {ks : List Nat}
    {x y : String} {zs : List String} (hx : n.skeleton.names[i]? = some x)
    (hy : n.skeleton.names[j]? = some y) (hzs : ks.map (n.skeleton.names[·]?) = zs.map some)
    (hij : i ≠ j) (hi : i ∉ ks) (hj : j ∉ ks) :
    ∃ answer, n.independent x y (some zs) = .ok answer ∧
      (answer = true ↔ ∀ path, n.skeleton.edges.IsPath i j path →
        n.skeleton.edges.Blocked ks path) := by
  have hs := hn.sound
  refine ⟨n.skeleton.edges.separates i j ks, ?_, Digraph.separates_iff hs.acyclic hi hj⟩
  have hnx : n.skeleton.number x = .ok i :=
    Skeleton.number_eq_ok.2 ((Skeleton.number?_eq_some hs.nodup).2 hx)
  have hny : n.skeleton.number y = .ok j :=
    Skeleton.number_eq_ok.2 ((Skeleton.number?_eq_some hs.nodup).2 hy)
  have hcondition : (ks.contains i || ks.contains j) = false := by
    simp [hi, hj]
  simp only [independent, hnx, hny, conditioningSet_of_names hs hzs, bind, Except.bind, if_neg hij,
    hcondition]
  rfl

/-- A vertex `c` with two parents, and a child `d` of it. -/
def vShaped : Network :=
  let add (n : Network) (name : String) : Network :=
    (n.addStochastic name .missing none false .missing).2
  let join (n : Network) (parent child : String) : Network :=
    match n.addEdge parent child with
    | .ok (_, n) => n
    | .error _ => n
  let vertices := add (add (add (add (.empty none) "a") "b") "c") "d"
  join (join (join vertices "a" "c") "b" "c") "c" "d"

theorem built_vShaped : vShaped.Built := by
  have add {n : Network} (hn : n.Built) (name : String) :
      (n.addStochastic name .missing none false .missing).2.Built := hn.stochastic ..
  have vertices := add (add (add (add (.empty none) "a") "b") "c") "d"
  have first := vertices.edge (show Network.addEdge _ "a" "c" = .ok (true, _) from rfl)
  have second := first.edge (show Network.addEdge _ "b" "c" = .ok (true, _) from rfl)
  exact second.edge (show Network.addEdge _ "c" "d" = .ok (true, vShaped) from rfl)

/-- Below a collider, what is given opens the path through it. -/
theorem independent_iff_blocked_vShaped :
    ∃ answer, vShaped.independent "a" "b" (some ["d"]) = .ok answer ∧
      (answer = true ↔ ∀ path, vShaped.skeleton.edges.IsPath 0 1 path →
        vShaped.skeleton.edges.Blocked [3] path) :=
  independent_iff_blocked built_vShaped rfl rfl rfl (by decide) (by decide) (by decide)

end PlateModel.Network
