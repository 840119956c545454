import Mathlib.Data.List.Nodup
import Mathlib.Data.List.Perm.Subperm
import PlateModel.Graph.Digraph
import PlateModel.Proofs.Computation
import PlateModel.Proofs.Graph.Reach

/-!
# When a depth-first search meets a cycle

A search keeps the path to the vertex that it has come to, and all vertices that it has seen. With
those beside the path it is finished: edges from them lead to others of them, and none of them lies
on a cycle. A vertex joins them when all edges from it have been followed. The path never visits a
vertex twice, so the search ends before its bound does.

* `Explored`: what is known of the vertices that have been seen.
* `explored_search`: a search that meets no cycle explores the vertex it has come to.
* `findCycle?_eq_none`: no cycle is met if and only if there is none.
-/

namespace PlateModel.Digraph

variable {α : Type}

/-- What a search knows of a path and of the vertices it has seen: those beside the path only lead
to one another, and none of them lies on a cycle. -/
structure Explored (g : Digraph α) (path seen : List α) : Prop where
  path_seen : path ⊆ seen
  closed : ∀ {a b}, a ∈ seen → a ∉ path → g.Edge a b → b ∈ seen ∧ b ∉ path
  acyclic : ∀ {a b}, a ∈ seen → a ∉ path → g.Edge a b → ¬ g.Leads b a

namespace Explored

variable {g : Digraph α} {path seen : List α} {x a b : α}

theorem nil (g : Digraph α) : g.Explored [] [] := ⟨List.Subset.refl _, nofun, nofun⟩

/-- Paths from finished vertices lead to finished vertices. -/
theorem leads (h : g.Explored path seen) (ha : a ∈ seen) (hpath : a ∉ path) (hab : g.Leads a b) :
    b ∈ seen ∧ b ∉ path := by
  induction hab with
  | refl => exact ⟨ha, hpath⟩
  | tail _ hbc ih => exact h.closed ih.1 ih.2 hbc

/-- The search comes to a vertex that it has not seen. -/
theorem push (h : g.Explored path seen) (hx : x ∉ seen) : g.Explored (path ++ [x]) (x :: seen) := by
  -- beside the longer path are the same vertices as before
  have beside {a : α} (ha : a ∈ x :: seen) (hpath : a ∉ path ++ [x]) : a ∈ seen ∧ a ∉ path := by
    rw [List.mem_append, List.mem_singleton, not_or] at hpath
    exact ⟨(List.mem_cons.1 ha).resolve_left hpath.2, hpath.1⟩
  refine ⟨?_, fun ha hpath hab => ?_, fun ha hpath hab => ?_⟩
  · intro a ha
    rcases List.mem_append.1 ha with ha | ha
    · exact List.mem_cons_of_mem _ (h.path_seen ha)
    · rw [List.mem_singleton.1 ha]
      exact List.mem_cons_self
  · obtain ⟨hb, hpath⟩ := h.closed (beside ha hpath).1 (beside ha hpath).2 hab
    refine ⟨List.mem_cons_of_mem _ hb, ?_⟩
    rw [List.mem_append, List.mem_singleton, not_or]
    exact ⟨hpath, fun hbx => hx (hbx ▸ hb)⟩
  · exact h.acyclic (beside ha hpath).1 (beside ha hpath).2 hab

/-- All edges from the end of the path have been followed. -/
theorem pop (h : g.Explored (path ++ [x]) seen)
    (hx : ∀ y, g.Edge x y → y ∈ seen ∧ y ∉ path ++ [x]) : g.Explored path seen := by
  have shorter {a : α} (ha : a ∉ path ++ [x]) : a ∉ path :=
    fun hpath => ha (List.mem_append_left _ hpath)
  refine ⟨List.Subset.trans (List.subset_append_left ..) h.path_seen, fun {a b} ha hpath hab => ?_,
    fun {a b} ha hpath hab => ?_⟩
  · by_cases hax : a = x
    · subst hax
      exact (hx b hab).imp_right shorter
    · exact (h.closed ha (by simp [hpath, hax]) hab).imp_right shorter
  · by_cases hax : a = x
    · subst hax
      intro hba
      exact (h.leads (hx b hab).1 (hx b hab).2 hba).2 (by simp)
    · exact h.acyclic ha (by simp [hpath, hax]) hab

end Explored

section Search

variable [DecidableEq α] {g : Digraph α} {vertices path seen seen' : List α} {cycle : List (α × α)}
  {n : Nat} {x : α}

/-! ## Searches that meet no cycle -/

/-- Following the edges to some vertices, if searches from each of them explore it. -/
theorem explored_foldlM : ∀ {ys seen seen' : List α},
    (∀ y ∈ ys, ∀ {seen seen'}, g.Explored path seen → y ∉ path → y ∉ seen →
      search g n path y seen = .ok seen' →
        g.Explored path seen' ∧ seen ⊆ seen' ∧ y ∈ seen') →
    g.Explored path seen →
    ys.foldlM (fun seen y =>
      if path.contains y then .error (steps (path.dropWhile (· ≠ y) ++ [y]))
      else if seen.contains y then .ok seen
      else search g n path y seen) seen = .ok seen' →
    g.Explored path seen' ∧ seen ⊆ seen' ∧ ∀ y ∈ ys, y ∈ seen' ∧ y ∉ path
  | [], seen, seen', _, hseen, h => by
    cases h
    exact ⟨hseen, List.Subset.refl _, nofun⟩
  | y :: ys, seen, seen', ih, hseen, h => by
    rw [List.foldlM_cons] at h
    obtain ⟨seen₁, hy, h⟩ := bind_eq_ok.1 h
    have first : g.Explored path seen₁ ∧ seen ⊆ seen₁ ∧ y ∈ seen₁ ∧ y ∉ path := by
      split at hy
      · cases hy
      · next hpath =>
        have hpath : y ∉ path := by simpa using hpath
        split at hy
        · next hmem =>
          cases hy
          exact ⟨hseen, List.Subset.refl _, by simpa using hmem, hpath⟩
        · next hmem =>
          obtain ⟨h₁, hsub, hy⟩ :=
            ih y (List.mem_cons_self ..) hseen hpath (by simpa using hmem) hy
          exact ⟨h₁, hsub, hy, hpath⟩
    obtain ⟨h₁, hsub, hy, hpath⟩ := first
    obtain ⟨h', hsub', hys⟩ :=
      explored_foldlM (fun z hz => ih z (List.mem_cons_of_mem _ hz)) h₁ h
    exact ⟨h', List.Subset.trans hsub hsub', List.forall_mem_cons.2 ⟨⟨hsub' hy, hpath⟩, hys⟩⟩

/-- A search that meets no cycle explores the vertex it has come to, if its bound allows for paths
through all vertices. -/
theorem explored_search (hg : ∀ {a b}, g.Edge a b → b ∈ vertices) :
    ∀ {n : Nat} {path seen seen' : List α} {x : α}, vertices.length ≤ n + path.length →
      (path ++ [x]).Nodup → path ++ [x] ⊆ vertices → g.Explored path seen → x ∉ seen →
      search g n path x seen = .ok seen' → g.Explored path seen' ∧ seen ⊆ seen' ∧ x ∈ seen'
  | 0, path, _, _, x, hn, hpath, hsub, _, _, _ => by
    have hlength := (List.subperm_of_subset hpath hsub).length_le
    rw [List.length_append, List.length_singleton] at hlength
    omega
  | n + 1, path, seen, seen', x, hn, hpath, hsub, hseen, hx, h => by
    have ih : ∀ y ∈ g.successors x, ∀ {seen seen'}, g.Explored (path ++ [x]) seen →
        y ∉ path ++ [x] → y ∉ seen → search g n (path ++ [x]) y seen = .ok seen' →
          g.Explored (path ++ [x]) seen' ∧ seen ⊆ seen' ∧ y ∈ seen' := by
      intro y hy seen seen' hseen hpath' hy'
      refine explored_search hg ?_ ?_ ?_ hseen hy'
      · rw [List.length_append, List.length_singleton]
        omega
      · exact List.nodup_append.2 ⟨hpath, List.nodup_singleton y, by
          rintro a ha b hb rfl
          exact hpath' (List.mem_singleton.1 hb ▸ ha)⟩
      · exact List.append_subset.2 ⟨hsub, by simpa using hg (mem_successors.1 hy)⟩
    rw [search] at h
    obtain ⟨h', hsub', hsuccessors⟩ := explored_foldlM ih (hseen.push hx) h
    refine ⟨h'.pop fun y hy => hsuccessors y (mem_successors.2 hy), ?_,
      hsub' (List.mem_cons_self ..)⟩
    exact List.Subset.trans (List.subset_cons_self ..) hsub'

theorem explored_searchFrom (hg : ∀ {a b}, g.Edge a b → b ∈ vertices) (hn : vertices.length ≤ n) :
    ∀ {xs seen seen' : List α}, xs ⊆ vertices → g.Explored [] seen →
      g.searchFrom n xs seen = .ok seen' → g.Explored [] seen' ∧ seen ⊆ seen' ∧ xs ⊆ seen'
  | [], _, _, _, hseen, h => by
    cases h
    exact ⟨hseen, List.Subset.refl _, List.nil_subset _⟩
  | x :: xs, seen, seen', hxs, hseen, h => by
    obtain ⟨hx, hxs⟩ := List.cons_subset.1 hxs
    rw [searchFrom] at h
    split at h
    · next hmem =>
      obtain ⟨h', hsub, hall⟩ := explored_searchFrom hg hn hxs hseen h
      exact ⟨h', hsub, List.cons_subset.2 ⟨hsub (by simpa using hmem), hall⟩⟩
    · next hmem =>
      split at h
      · next seen₁ hsearch =>
        obtain ⟨h₁, hsub₁, hx₁⟩ := explored_search hg hn (List.nodup_singleton x)
          (by simpa using hx) hseen (by simpa using hmem) hsearch
        obtain ⟨h', hsub, hall⟩ := explored_searchFrom hg hn hxs h₁ h
        exact ⟨h', List.Subset.trans hsub₁ hsub, List.cons_subset.2 ⟨hsub hx₁, hall⟩⟩
      · cases h

/-! ## Searches that meet a cycle -/

theorem exists_of_foldlM_eq_error {ε β γ : Type} {f : β → γ → Except ε β} {e : ε} :
    ∀ {l : List γ} {b : β}, l.foldlM f b = .error e → ∃ a ∈ l, ∃ b', f b' a = .error e
  | [], _, h => nomatch h
  | a :: l, b, h => by
    rw [List.foldlM_cons] at h
    rcases bind_eq_error.1 h with h | ⟨b', -, h⟩
    · exact ⟨a, List.mem_cons_self .., b, h⟩
    · obtain ⟨a', ha', b'', h⟩ := exists_of_foldlM_eq_error h
      exact ⟨a', List.mem_cons_of_mem _ ha', b'', h⟩

/-- If a path leads to the vertex that a search has come to, and the search meets a cycle, then
there is one. -/
theorem not_acyclic_of_search : ∀ {n : Nat} {path seen : List α} {x : α},
    (∀ z ∈ path, g.Leads z x) → search g n path x seen = .error cycle → ¬ g.Acyclic
  | 0, _, _, _, _, h => nomatch h
  | n + 1, path, seen, x, hpath, h => by
    have hpath : ∀ z ∈ path ++ [x], g.Leads z x := by
      intro z hz
      rcases List.mem_append.1 hz with hz | hz
      · exact hpath z hz
      · rw [List.mem_singleton.1 hz]
    rw [search] at h
    obtain ⟨y, hy, seen', h⟩ := exists_of_foldlM_eq_error h
    have hxy := mem_successors.1 hy
    split at h
    · next hmem => exact fun hacyclic => hacyclic x y hxy (hpath y (by simpa using hmem))
    · split at h
      · cases h
      · exact not_acyclic_of_search (fun z hz => (hpath z hz).tail hxy) h

theorem not_acyclic_of_searchFrom : ∀ {xs seen : List α},
    g.searchFrom n xs seen = .error cycle → ¬ g.Acyclic
  | [], _, h => nomatch h
  | x :: xs, seen, h => by
    rw [searchFrom] at h
    split at h
    · exact not_acyclic_of_searchFrom h
    · split at h
      · exact not_acyclic_of_searchFrom h
      · next hsearch => exact not_acyclic_of_search (List.forall_mem_nil _) hsearch

/-- A search from all vertices meets no cycle if and only if there is none. -/
theorem findCycle?_eq_none (hg : ∀ {a b}, g.Edge a b → a ∈ vertices ∧ b ∈ vertices) :
    g.findCycle? vertices = none ↔ g.Acyclic := by
  rw [findCycle?]
  cases h : g.searchFrom (vertices.length + 1) vertices [] with
  | error cycle => exact ⟨nofun, fun hacyclic => absurd hacyclic (not_acyclic_of_searchFrom h)⟩
  | ok seen =>
    obtain ⟨hseen, -, hall⟩ := explored_searchFrom (fun hab => (hg hab).2) (Nat.le_succ _)
      (List.Subset.refl _) (.nil g) h
    exact ⟨fun _ a b hab => hseen.acyclic (hall (hg hab).1) (List.not_mem_nil) hab, fun _ => rfl⟩

end Search

end PlateModel.Digraph
