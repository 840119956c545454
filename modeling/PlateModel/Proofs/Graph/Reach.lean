import Mathlib.Logic.Relation
import PlateModel.Graph.Digraph

/-!
# What a search along edges finds

A search takes rounds; each adds the heads of edges from what was found before. A round that adds
something leaves fewer edges whose heads have not been found, so there are no more rounds than
edges, and the search ends with a set that no edge leaves.

* `Digraph.Edge`, `Digraph.Leads`: edges and paths as relations.
* `Digraph.mem_reachable`, `Digraph.reaches_iff`: a search finds what paths lead to.
* `Digraph.Acyclic`: no path leads back along an edge; `Acyclic.append` says when an edge may be
  added.
-/

namespace PlateModel.Digraph

variable {α : Type}

/-- There is an edge from one vertex to another. -/
def Edge (g : Digraph α) (a b : α) : Prop := (a, b) ∈ g

/-- There is a path along edges from one vertex to another, perhaps without any edge. -/
abbrev Leads (g : Digraph α) : α → α → Prop := Relation.ReflTransGen g.Edge

/-- No path leads back along an edge. -/
def Acyclic (g : Digraph α) : Prop := ∀ a b, g.Edge a b → ¬ g.Leads b a

theorem edge_reversed {g : Digraph α} {a b : α} : g.reversed.Edge a b ↔ g.Edge b a := by
  simp only [Edge, reversed, List.mem_map, Prod.mk.injEq, Prod.exists]
  constructor
  · rintro ⟨_, _, h, rfl, rfl⟩
    exact h
  · exact fun h => ⟨b, a, h, rfl, rfl⟩

theorem leads_reversed {g : Digraph α} {a b : α} : g.reversed.Leads a b ↔ g.Leads b a := by
  have h : g.reversed.Edge = Function.swap g.Edge := by
    funext a b
    exact propext edge_reversed
  rw [Leads, h]
  exact Relation.reflTransGen_swap

theorem edge_restrict {g : Digraph α} {p : α → Bool} {a b : α} :
    (g.restrict p).Edge a b ↔ g.Edge a b ∧ p a ∧ p b := by
  simp [Edge, restrict]

namespace Acyclic

variable {g : Digraph α} {a b : α}

theorem ne (h : g.Acyclic) (hab : g.Edge a b) : a ≠ b := fun e => h a b hab (e ▸ .refl)

theorem asymm (h : g.Acyclic) (hab : g.Edge a b) : ¬ g.Edge b a :=
  fun hba => h a b hab (.single hba)

theorem nil : Acyclic ([] : Digraph α) := fun _ _ h => nomatch h

end Acyclic

/-- A path along edges of which one is new does without it, or leads to its tail and on from its
head. -/
theorem leads_append {g : Digraph α} {i j a b : α} (h : (g ++ [(i, j)]).Leads a b) :
    g.Leads a b ∨ g.Leads a i ∧ g.Leads j b := by
  induction h with
  | refl => exact .inl .refl
  | @tail b c _ hbc ih =>
    have hbc : g.Edge b c ∨ b = i ∧ c = j := by simpa [Edge] using hbc
    rcases hbc with hbc | ⟨rfl, rfl⟩
    · exact ih.imp (·.tail hbc) fun ⟨hai, hjb⟩ => ⟨hai, hjb.tail hbc⟩
    · exact .inr ⟨ih.elim id (·.1), .refl⟩

/-- An edge may be added unless a path leads from its head to its tail. -/
theorem Acyclic.append {g : Digraph α} {i j : α} (h : g.Acyclic) (hji : ¬ g.Leads j i) :
    Acyclic (g ++ [(i, j)]) := by
  intro a b hab hba
  have hab : g.Edge a b ∨ a = i ∧ b = j := by simpa [Edge] using hab
  rcases hab with hab | ⟨rfl, rfl⟩
  · rcases leads_append hba with hba | ⟨hbi, hja⟩
    · exact h a b hab hba
    · exact hji (hja.trans (.head hab hbi))
  · rcases leads_append hba with hba | ⟨hbi, -⟩
    · exact hji hba
    · exact hji hbi

section Search

variable [DecidableEq α] {g : Digraph α} {seen starts : List α} {n : Nat} {a b c v : α}

theorem mem_predecessors : a ∈ g.predecessors b ↔ g.Edge a b := by
  simp [predecessors, Edge]

theorem mem_successors : b ∈ g.successors a ↔ g.Edge a b := by
  simp [successors, Edge]

theorem mem_frontier : v ∈ g.frontier seen ↔ v ∉ seen ∧ ∃ a ∈ seen, g.Edge a v := by
  simp only [frontier, List.mem_eraseDups, List.mem_map, List.mem_filter, Bool.and_eq_true,
    List.contains_iff_mem, Bool.not_eq_true', ← Bool.not_eq_true]
  constructor
  · rintro ⟨⟨a, b⟩, ⟨hab, ha, hb⟩, rfl⟩
    exact ⟨hb, a, ha, hab⟩
  · rintro ⟨hv, a, ha, hav⟩
    exact ⟨(a, v), ⟨hav, ha, hv⟩, rfl⟩

/-- What is found can be reached. -/
theorem leads_of_mem_reachableIn (h : v ∈ g.reachableIn n seen) : ∃ s ∈ seen, g.Leads s v := by
  induction n generalizing seen with
  | zero => exact ⟨v, h, .refl⟩
  | succ n ih =>
    unfold reachableIn at h
    split at h
    · exact ⟨v, h, .refl⟩
    · obtain ⟨s, hs, hsv⟩ := ih h
      rcases List.mem_append.1 hs with hs | hs
      · exact ⟨s, hs, hsv⟩
      · obtain ⟨-, a, ha, has⟩ := mem_frontier.1 hs
        exact ⟨a, ha, .head has hsv⟩

theorem subset_reachableIn : seen ⊆ g.reachableIn n seen := by
  induction n generalizing seen with
  | zero => exact List.Subset.refl _
  | succ n ih =>
    unfold reachableIn
    split
    · exact List.Subset.refl _
    · exact List.Subset.trans (List.subset_append_left ..) ih

/-- The edges whose heads have not been found. -/
def unseen (g : Digraph α) (seen : List α) : Nat := g.countP fun e => !seen.contains e.2

theorem unseen_append_lt {new : List α} (hv : v ∈ new) (hseen : v ∉ seen) (hav : g.Edge a v) :
    g.unseen (seen ++ new) < g.unseen seen := by
  have hsplit : g.countP (fun e => !seen.contains e.2) =
      g.countP (fun e => !(seen ++ new).contains e.2) +
        g.countP (fun e => !seen.contains e.2 && new.contains e.2) := by
    rw [List.countP_eq_countP_filter_add _ _ fun e => !new.contains e.2, List.countP_filter,
      List.countP_filter]
    congr 2 <;> funext e <;> simp
  have hpos : 0 < g.countP fun e => !seen.contains e.2 && new.contains e.2 :=
    List.countP_pos_iff.2 ⟨(a, v), hav, by simp [hv, hseen]⟩
  unfold unseen
  omega

/-- A search with a round for every edge whose head has not been found ends where no edge leaves
what has been found. -/
theorem frontier_reachableIn (h : g.unseen seen ≤ n) : g.frontier (g.reachableIn n seen) = [] := by
  induction n generalizing seen with
  | zero =>
    refine List.eq_nil_iff_forall_not_mem.2 fun v hv => ?_
    obtain ⟨hseen, a, -, hav⟩ := mem_frontier.1 hv
    have hpos : 0 < g.unseen seen :=
      List.countP_pos_iff.2 ⟨(a, v), hav, by simpa [reachableIn] using hseen⟩
    omega
  | succ n ih =>
    unfold reachableIn
    split
    · assumption
    · next hnew =>
      obtain ⟨v, hv⟩ := List.exists_mem_of_ne_nil _ hnew
      obtain ⟨hseen, a, -, hav⟩ := mem_frontier.1 hv
      have := unseen_append_lt hv hseen hav
      exact ih (by omega)

/-- A search finds what can be reached from where it starts. -/
theorem mem_reachable : v ∈ g.reachable starts ↔ ∃ s ∈ starts, g.Leads s v := by
  have hend : g.frontier (g.reachable starts) = [] :=
    frontier_reachableIn List.countP_le_length
  refine ⟨leads_of_mem_reachableIn, fun h => ?_⟩
  obtain ⟨s, hs, hsv⟩ := h
  induction hsv with
  | refl => exact subset_reachableIn hs
  | @tail b c _ hbc ih =>
    by_cases hc : c ∈ g.reachable starts
    · exact hc
    · have hnew := mem_frontier.2 ⟨hc, b, ih, hbc⟩
      rw [hend] at hnew
      cases hnew

theorem reaches_iff : g.reaches a b = true ↔ g.Leads a b := by
  simp [reaches, mem_reachable]

end Search

end PlateModel.Digraph
