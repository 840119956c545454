import Mathlib.Data.List.Perm.Subperm
import Mathlib.Order.WellFoundedSet
import PlateModel.Graph.Digraph
import PlateModel.Proofs.Graph.Reach

/-!
# Vertices in topological order

What is counted for a vertex are the edges to it from vertices that are not in order yet, and those
for which nothing is left wait in the queue. When a vertex is put in order the edges from it are no
longer counted, so both stay true. If nothing waits, every vertex that is left has an edge from
another one that is left, and in an acyclic graph there is no such set of vertices but the empty
one.

* `Ordered`: a list in which every vertex comes after the tails of the edges to it.
* `Counts`: what a queue and its counts say of the vertices that are in order.
* `ordered_topological`: vertices come after the tails of the edges to them.
* `topological_perm`, `length_topological`: all vertices come in order, if and only if there is no
  cycle.
-/

namespace PlateModel

variable {α : Type} [DecidableEq α]

/-! ## Counting down -/

namespace Waiting

variable {w : Waiting α} {ys : List α} {y : α}

theorem missing_foldl_countDown : (ys.foldl countDown w).missing y = w.missing y - ys.count y := by
  induction ys generalizing w with
  | nil => simp
  | cons z ys ih =>
    rw [List.foldl_cons, ih, List.count_cons]
    simp only [countDown]
    by_cases hzy : z = y
    · subst hzy
      simp
      omega
    · simp [hzy, Ne.symm hzy]

/-- What is counted down to zero joins the queue. -/
theorem mem_queue_foldl_countDown : y ∈ (ys.foldl countDown w).queue ↔
    y ∈ w.queue ∨ 1 ≤ w.missing y ∧ w.missing y ≤ ys.count y := by
  induction ys generalizing w with
  | nil => simp; omega
  | cons z ys ih =>
    rw [List.foldl_cons, ih, List.count_cons]
    simp only [countDown]
    by_cases hzy : z = y
    · subst hzy
      by_cases hqueue : z ∈ w.queue
      · have : z ∈ if w.missing z - 1 = 0 then w.queue ++ [z] else w.queue := by
          split <;> simp [hqueue]
        simp only [this, hqueue, true_or]
      · by_cases hleft : w.missing z - 1 = 0
        · simp [hleft]
          omega
        · simp only [hleft, hqueue, if_true, if_false, false_or, BEq.rfl]
          omega
    · split <;> simp [hzy, Ne.symm hzy]

/-- Nothing joins the queue twice, if nothing is left to count down for what waits. -/
theorem nodup_queue_foldl_countDown (hqueue : w.queue.Nodup) (hw : ∀ y ∈ w.queue, w.missing y ≤ 0) :
    (ys.foldl countDown w).queue.Nodup := by
  induction ys generalizing w with
  | nil => exact hqueue
  | cons z ys ih =>
    rw [List.foldl_cons]
    have hcount : ∀ {y : α} {m : Int}, w.missing y ≤ m →
        (w.countDown z).missing y ≤ m := by
      intro y m hy
      simp only [countDown]
      split
      · next hyz =>
        subst hyz
        omega
      · exact hy
    by_cases hleft : w.missing z - 1 = 0
    · have hfresh : z ∉ w.queue := fun hz => by
        have := hw z hz
        omega
      have hnew : (w.countDown z).queue = w.queue ++ [z] := by simp only [countDown, hleft, if_true]
      refine ih ?_ fun y hy => ?_
      · rw [hnew]
        exact List.nodup_append.2 ⟨hqueue, List.nodup_singleton z, by
          rintro a ha b hb rfl
          exact hfresh (List.mem_singleton.1 hb ▸ ha)⟩
      · rw [hnew] at hy
        rcases List.mem_append.1 hy with hy | hy
        · exact hcount (hw y hy)
        · rw [List.mem_singleton.1 hy]
          simp only [countDown, if_true]
          omega
    · have hsame : (w.countDown z).queue = w.queue := by simp only [countDown, hleft, if_false]
      rw [← hsame] at hqueue hw
      exact ih hqueue fun y hy => hcount (hw y hy)

end Waiting

namespace Digraph

variable {g : Digraph α} {vertices done queue os : List α} {w : Waiting α} {x y : α} {n : Nat}

/-! ## What is counted -/

/-- Every vertex of a list comes after the tails of the edges to it; some vertices have come before.
-/
def Ordered (g : Digraph α) : List α → List α → Prop
  | _, [] => True
  | done, x :: rest => (∀ p, g.Edge p x → p ∈ done) ∧ g.Ordered (done ++ [x]) rest

/-- How many edges lead to a vertex from vertices that are not in order. -/
def pending (g : Digraph α) (done : List α) (y : α) : Nat :=
  g.countP fun e => e.2 = y && !done.contains e.1

theorem pending_eq_zero : g.pending done y = 0 ↔ ∀ p, g.Edge p y → p ∈ done := by
  rw [pending, List.countP_eq_zero]
  constructor
  · intro h p hp
    simpa using h (p, y) hp
  · rintro h ⟨p, z⟩ hp
    simp only [Bool.and_eq_true, decide_eq_true_eq, Bool.not_eq_true', not_and]
    rintro rfl
    simpa using h p hp

theorem count_successors : (g.successors x).count y = g.countP fun e => e.1 = x && e.2 = y := by
  rw [successors, List.count_eq_countP, List.countP_map, List.countP_filter]
  refine List.countP_congr fun e _ => ?_
  simp [and_comm]

/-- Of the edges to a vertex, those from a vertex that is put in order are counted no longer. -/
theorem pending_eq_add (hx : x ∉ done) :
    g.pending done y = g.pending (done ++ [x]) y + (g.successors x).count y := by
  rw [count_successors, pending, pending,
    List.countP_eq_countP_filter_add _ _ fun e => decide (e.1 ≠ x), List.countP_filter,
    List.countP_filter]
  congr 1
  · refine List.countP_congr fun e _ => ?_
    simp [and_assoc]
  · refine List.countP_congr fun e _ => ?_
    simp only [Bool.and_eq_true, decide_eq_true_eq, Bool.not_eq_true', decide_eq_false_iff_not,
      not_not]
    constructor
    · rintro ⟨⟨hy, -⟩, hx⟩
      exact ⟨hx, hy⟩
    · rintro ⟨rfl, hy⟩
      exact ⟨⟨hy, by simpa using hx⟩, rfl⟩

/-- A queue holds the vertices that can come next, and the counts are those of the edges from
vertices that are not in order. -/
structure Counts (g : Digraph α) (vertices done : List α) (w : Waiting α) : Prop where
  missing : ∀ y, w.missing y = g.pending done y
  nodup_queue : w.queue.Nodup
  mem_queue : ∀ {y}, y ∈ w.queue ↔ y ∈ vertices ∧ y ∉ done ∧ g.pending done y = 0
  pending_done : ∀ {y}, y ∈ done → g.pending done y = 0

namespace Counts

/-- The first vertex in the queue can come next. -/
theorem first (h : g.Counts vertices done w) (hqueue : w.queue = x :: queue) :
    x ∈ vertices ∧ x ∉ done ∧ g.pending done x = 0 :=
  h.mem_queue.1 (hqueue ▸ List.mem_cons_self ..)

/-- The first vertex in the queue is put in order. -/
theorem next (hg : ∀ {a b}, g.Edge a b → b ∈ vertices) (h : g.Counts vertices done w)
    (hqueue : w.queue = x :: queue) :
    g.Counts vertices (done ++ [x]) ((g.successors x).foldl .countDown { w with queue }) := by
  obtain ⟨-, hxdone, hxpending⟩ := h.first hqueue
  obtain ⟨hxqueue, hnodup⟩ := List.nodup_cons.1 (hqueue ▸ h.nodup_queue)
  have hmem {y : α} : y = x ∨ y ∈ queue ↔ y ∈ vertices ∧ y ∉ done ∧ g.pending done y = 0 := by
    rw [← List.mem_cons, ← hqueue]
    exact h.mem_queue
  have hadd (y : α) := pending_eq_add (g := g) (y := y) hxdone
  refine ⟨fun y => ?_, ?_, fun {y} => ?_, fun {y} hy => ?_⟩
  · rw [Waiting.missing_foldl_countDown, h.missing, hadd]
    omega
  · refine Waiting.nodup_queue_foldl_countDown hnodup fun y hy => ?_
    rw [h.missing, (hmem.1 (.inr hy)).2.2]
    exact Int.le_refl 0
  · rw [Waiting.mem_queue_foldl_countDown, h.missing, List.mem_append, List.mem_singleton, not_or]
    have hadd := hadd y
    constructor
    · rintro (hy | ⟨hpos, hcount⟩)
      · obtain ⟨hvertex, hdone, hzero⟩ := hmem.1 (.inr hy)
        exact ⟨hvertex, ⟨hdone, fun hyx => hxqueue (hyx ▸ hy)⟩, by omega⟩
      · -- the last edge that was counted comes from `x`
        have hedge : g.Edge x y := mem_successors.1 (List.count_pos_iff.1 (by omega))
        refine ⟨hg hedge, ⟨fun hdone => ?_, fun hyx => ?_⟩, by omega⟩
        · have := h.pending_done hdone
          omega
        · rw [hyx, hxpending] at hpos
          omega
    · rintro ⟨hvertex, ⟨hdone, hyx⟩, hzero⟩
      by_cases hpending : g.pending done y = 0
      · exact .inl ((hmem.2 ⟨hvertex, hdone, hpending⟩).resolve_left hyx)
      · exact .inr ⟨by omega, by omega⟩
  · have hzero : g.pending done y = 0 := by
      rcases List.mem_append.1 hy with hy | hy
      · exact h.pending_done hy
      · rw [List.mem_singleton.1 hy, hxpending]
    have := hadd y
    omega

/-- In an acyclic graph nothing is left when nothing waits. -/
theorem subset_of_nil (hg : ∀ {a b}, g.Edge a b → a ∈ vertices) (hacyclic : g.Acyclic)
    (h : g.Counts vertices done w) (hqueue : w.queue = []) : vertices ⊆ done := by
  have hstrict : IsStrictOrder α (Relation.TransGen g.Edge) :=
    { irrefl := fun a haa => by
        obtain ⟨b, hab, hba⟩ := Relation.TransGen.head'_iff.1 haa
        exact hacyclic a b hab hba
      trans := fun _ _ _ => .trans }
  let left : Set α := { y | y ∈ vertices ∧ y ∉ done }
  have hfinite : left.Finite := (List.finite_toSet vertices).subset fun y hy => hy.1
  have hwf : left.WellFoundedOn (Relation.TransGen g.Edge) := hfinite.wellFoundedOn
  intro y hy
  by_contra hdone
  refine hwf.induction (P := fun _ => False) (x := y) ⟨hy, hdone⟩ fun z hz ih => ?_
  -- an edge from another vertex that is left keeps `z` from waiting
  have hz' : ¬ g.pending done z = 0 := fun hzero =>
    List.not_mem_nil (hqueue ▸ h.mem_queue.2 ⟨hz.1, hz.2, hzero⟩)
  simp only [pending_eq_zero, not_forall] at hz'
  obtain ⟨p, hp, hpdone⟩ := hz'
  exact ih p ⟨hg hp, hpdone⟩ (.single hp)

end Counts

/-! ## The order -/

/-- What comes in order is new, comes once and after the tails of the edges to it; in an acyclic
graph nothing is missing, if the bound allows for all that is left. -/
theorem ordered_orderFrom (hg : ∀ {a b}, g.Edge a b → a ∈ vertices ∧ b ∈ vertices) :
    ∀ {n : Nat} {done : List α} {w : Waiting α}, g.Counts vertices done w → done.Nodup →
      done ⊆ vertices →
      g.Ordered done (orderFrom g.successors n w) ∧ (done ++ orderFrom g.successors n w).Nodup ∧
        done ++ orderFrom g.successors n w ⊆ vertices ∧
        (g.Acyclic → vertices.length ≤ n + done.length →
          vertices ⊆ done ++ orderFrom g.successors n w)
  | 0, done, w, h, hnodup, hsub => by
    simp only [orderFrom, Ordered, List.append_nil, true_and]
    refine ⟨hnodup, hsub, fun _ hlength => ?_⟩
    have hperm := (List.subperm_of_subset hnodup hsub).perm_of_length_le (by omega)
    exact hperm.symm.subset
  | n + 1, done, w, h, hnodup, hsub => by
    rw [orderFrom]
    split
    · next hqueue =>
      simp only [Ordered, List.append_nil, true_and]
      exact ⟨hnodup, hsub,
        fun hacyclic _ => h.subset_of_nil (fun hab => (hg hab).1) hacyclic hqueue⟩
    · next x queue hqueue =>
      obtain ⟨hx, hxdone, hxpending⟩ := h.first hqueue
      have hnext := h.next (fun hab => (hg hab).2) hqueue
      have hnodup' : (done ++ [x]).Nodup := List.nodup_append.2 ⟨hnodup, List.nodup_singleton x, by
        rintro a ha b hb rfl
        exact hxdone (List.mem_singleton.1 hb ▸ ha)⟩
      have hsub' : done ++ [x] ⊆ vertices := List.append_subset.2 ⟨hsub, by simpa using hx⟩
      obtain ⟨hordered, hnodup'', hsub'', hall⟩ := ordered_orderFrom hg hnext hnodup' hsub'
      rw [List.append_assoc, List.singleton_append] at hnodup'' hsub'' hall
      refine ⟨⟨pending_eq_zero.1 hxpending, hordered⟩, hnodup'', hsub'', fun hacyclic hlength => ?_⟩
      refine hall hacyclic ?_
      rw [List.length_append, List.length_singleton]
      omega

theorem counts_topological (hvertices : vertices.Nodup) : g.Counts vertices []
    ⟨vertices.filter fun x => ((g.predecessors x).length : Int) = 0,
      fun x => (g.predecessors x).length⟩ := by
  have hpending (y : α) : g.pending [] y = (g.predecessors y).length := by
    rw [pending, predecessors, List.length_map, List.countP_eq_length_filter]
    simp
  refine ⟨fun y => by rw [hpending], hvertices.filter _, fun {y} => ?_,
    fun hy => absurd hy List.not_mem_nil⟩
  simp [hpending]

/-- Whatever the graph, vertices come in order at most once, each after the tails of the edges to
it. -/
theorem ordered_topological (hvertices : vertices.Nodup)
    (hg : ∀ {a b}, g.Edge a b → a ∈ vertices ∧ b ∈ vertices) :
    g.Ordered [] (g.topological vertices) ∧ (g.topological vertices).Nodup ∧
      g.topological vertices ⊆ vertices := by
  obtain ⟨hordered, hnodup, hsub, -⟩ := ordered_orderFrom hg (n := vertices.length)
    (counts_topological hvertices) List.nodup_nil (List.nil_subset _)
  exact ⟨hordered, hnodup, hsub⟩

/-- Of a graph without cycles all vertices come in order, each after the tails of the edges to
it. -/
theorem topological_perm (hvertices : vertices.Nodup)
    (hg : ∀ {a b}, g.Edge a b → a ∈ vertices ∧ b ∈ vertices) (hacyclic : g.Acyclic) :
    (g.topological vertices).Perm vertices ∧ g.Ordered [] (g.topological vertices) := by
  obtain ⟨hordered, hnodup, hsub, hall⟩ := ordered_orderFrom hg (n := vertices.length)
    (counts_topological hvertices) List.nodup_nil (List.nil_subset _)
  rw [List.nil_append] at hnodup hsub hall
  refine ⟨?_, hordered⟩
  exact (List.perm_ext_iff_of_nodup hnodup hvertices).2 fun a =>
    ⟨fun ha => hsub ha, fun ha => hall hacyclic (Nat.le_add_right ..) ha⟩

omit [DecidableEq α] in
/-- What stands in front of a vertex in an ordered list are all tails of edges to it. -/
theorem mem_of_ordered : ∀ {before done : List α} {x p : α} {after : List α},
    g.Ordered done (before ++ x :: after) → g.Edge p x → p ∈ done ++ before
  | [], _, _, _, _, ⟨hx, _⟩, hp => by simpa using hx _ hp
  | _ :: _, _, _, _, _, ⟨_, hrest⟩, hp => by
    simpa [List.append_assoc] using mem_of_ordered hrest hp

omit [DecidableEq α] in
theorem Ordered.left : ∀ {before done after : List α}, g.Ordered done (before ++ after) →
    g.Ordered done before
  | [], _, _, _ => trivial
  | _ :: _, _, _, ⟨hx, hrest⟩ => ⟨hx, hrest.left⟩

omit [DecidableEq α] in
/-- No edge leads back in an ordered list. -/
theorem Ordered.pairwise : ∀ {order done : List α}, g.Ordered done order → (done ++ order).Nodup →
    order.Pairwise fun a b => ¬ g.Edge b a
  | [], _, _, _ => .nil
  | x :: order, done, ⟨hx, hrest⟩, hnodup => by
    rw [List.append_cons] at hnodup
    refine .cons (fun b hb hbx => ?_) (hrest.pairwise hnodup)
    exact (List.nodup_append.1 hnodup).2.2 b (List.mem_append_left _ (hx b hbx)) b hb rfl

/-! ## Cycles -/

omit [DecidableEq α] in
theorem acyclic_iff : g.Acyclic ↔ ¬ ∃ a, Relation.TransGen g.Edge a a := by
  simp only [Acyclic, Relation.TransGen.head'_iff]
  exact ⟨fun h ⟨a, b, hab, hba⟩ => h a b hab hba, fun h a b hab hba => h ⟨a, b, hab, hba⟩⟩

omit [DecidableEq α] in
/-- No infinite path leads to what is in order. -/
theorem acc_of_ordered : ∀ {order done : List α}, (∀ y ∈ done, Acc g.Edge y) →
    g.Ordered done order → ∀ y ∈ order, Acc g.Edge y
  | [], _, _, _ => nofun
  | x :: order, done, hdone, ⟨hx, hrest⟩ => by
    have hacc : Acc g.Edge x := .intro x fun p hp => hdone p (hx p hp)
    refine List.forall_mem_cons.2 ⟨hacc, acc_of_ordered (fun y hy => ?_) hrest⟩
    rcases List.mem_append.1 hy with hy | hy
    · exact hdone y hy
    · exact List.mem_singleton.1 hy ▸ hacc

omit [DecidableEq α] in
/-- If the heads of all edges are in order, there is no cycle. -/
theorem acyclic_of_ordered (h : g.Ordered [] os) (hg : ∀ {a b}, g.Edge a b → b ∈ os) :
    g.Acyclic := by
  refine acyclic_iff.2 fun ⟨a, haa⟩ => ?_
  obtain ⟨_, -, hba⟩ := Relation.TransGen.tail'_iff.1 haa
  have hacc : Acc (Relation.TransGen g.Edge) a := (acc_of_ordered nofun h a (hg hba)).transGen
  clear hba
  induction hacc with
  | intro a _ ih => exact ih a haa haa

/-- All vertices come in order if and only if there is no cycle. -/
theorem length_topological (hvertices : vertices.Nodup)
    (hg : ∀ {a b}, g.Edge a b → a ∈ vertices ∧ b ∈ vertices) :
    (g.topological vertices).length = vertices.length ↔ g.Acyclic := by
  obtain ⟨hordered, hnodup, hsub⟩ := ordered_topological hvertices hg
  constructor
  · intro hlength
    have hperm := (List.subperm_of_subset hnodup hsub).perm_of_length_le (Nat.le_of_eq hlength.symm)
    exact acyclic_of_ordered hordered fun hab => hperm.symm.subset (hg hab).2
  · intro hacyclic
    exact (topological_perm hvertices hg hacyclic).1.length_eq

end Digraph

end PlateModel
