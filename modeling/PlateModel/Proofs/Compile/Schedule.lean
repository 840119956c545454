import PlateModel.Compile.Pass
import PlateModel.Proofs.Emission.Nodes
import PlateModel.Proofs.Graph.Order

/-!
# Passes come after what they require

The requirements among registered passes are a graph with an edge from each requirement to the pass
that has it. What scheduling counts and puts in order is what the order of the vertices of this
graph does; requirements outside of the registered passes, which count down as well, never come up.
So the order is complete if and only if the graph has no cycle.

* `Requires`, `requirements`: requirements among registered passes, as a relation and as a graph.
* `schedule_eq`: scheduling orders the vertices of this graph.
* `schedule_orders`: what scheduling returns, and when it fails.
-/

namespace PlateModel

/-! ## Orders from agreeing counts -/

section Agreement

variable {α : Type} [DecidableEq α] {P : α → Prop} {f g : α → List α} {w w' : Waiting α}

/-- Two queues are the same, hold only items of a kind, and what is missing for these agrees. -/
structure Waiting.Agree (P : α → Prop) (w w' : Waiting α) : Prop where
  queue : w.queue = w'.queue
  kind : ∀ x ∈ w.queue, P x
  missing : ∀ x, P x → w.missing x = w'.missing x

namespace Waiting.Agree

theorem countDown (h : Agree P w w') {x : α} (hx : P x) :
    Agree P (w.countDown x) (w'.countDown x) := by
  have hleft : w.missing x = w'.missing x := h.missing x hx
  refine ⟨?_, fun y hy => ?_, fun y hy => ?_⟩
  · simp only [Waiting.countDown, hleft, h.queue]
  · simp only [Waiting.countDown] at hy
    split at hy
    · rcases List.mem_append.1 hy with hy | hy
      · exact h.kind y hy
      · exact List.mem_singleton.1 hy ▸ hx
    · exact h.kind y hy
  · simp only [Waiting.countDown, hleft, h.missing y hy]

theorem foldl {ys : List α} (h : Agree P w w') (hys : ∀ y ∈ ys, P y) :
    Agree P (ys.foldl .countDown w) (ys.foldl .countDown w') := by
  induction ys generalizing w w' with
  | nil => exact h
  | cons y ys ih =>
    obtain ⟨hy, hys⟩ := List.forall_mem_cons.1 hys
    exact ih (h.countDown hy) hys

end Waiting.Agree

/-- Items of a kind come in the same order, if they have the same dependents, again of that kind. -/
theorem orderFrom_congr (hfg : ∀ x, P x → f x = g x) (hf : ∀ x, P x → ∀ y ∈ f x, P y) :
    ∀ {n : Nat} {w w' : Waiting α}, w.Agree P w' → orderFrom f n w = orderFrom g n w'
  | 0, _, _, _ => rfl
  | n + 1, w, w', h => by
    obtain ⟨queue, missing⟩ := w
    obtain ⟨queue', missing'⟩ := w'
    obtain rfl : queue = queue' := h.queue
    cases queue with
    | nil => rfl
    | cons x queue =>
      have hx : P x := h.kind x (List.mem_cons_self ..)
      have hrest : Waiting.Agree P ⟨queue, missing⟩ ⟨queue, missing'⟩ :=
        ⟨rfl, fun y hy => h.kind y (List.mem_cons_of_mem x hy), h.missing⟩
      simp only [orderFrom, ← hfg x hx]
      rw [orderFrom_congr hfg hf (hrest.foldl (hf x hx))]

end Agreement

/-! ## Requirements as a graph -/

section Requirements

variable {α : Type} {registered : List α} {requires : α → List α} {p r : α}

/-- A registered pass requires a registered pass, perhaps itself. -/
def Requires (registered : List α) (requires : α → List α) (p r : α) : Prop :=
  p ∈ registered ∧ r ∈ registered ∧ r ∈ requires p

variable [DecidableEq α]

/-- The requirements among registered passes, each as an edge to the pass that has it. -/
def requirements (registered : List α) (requires : α → List α) : Digraph α :=
  registered.flatMap fun p => ((requires p).eraseDups.filter (registered.contains ·)).map (·, p)

theorem edge_requirements :
    (requirements registered requires).Edge r p ↔ Requires registered requires p r := by
  simp only [Digraph.Edge, requirements, Requires, List.mem_flatMap, List.mem_map, List.mem_filter,
    List.mem_eraseDups, List.contains_iff_mem, Prod.mk.injEq]
  constructor
  · rintro ⟨_, hp, _, ⟨hr, hmem⟩, rfl, rfl⟩
    exact ⟨hp, hmem, hr⟩
  · rintro ⟨hp, hmem, hr⟩
    exact ⟨p, hp, r, ⟨hr, hmem⟩, rfl, rfl⟩

omit [DecidableEq α] in
/-- Lists for some items of a list only, one after the other. -/
theorem flatMap_ite {β : Type} (c : α → Bool) (f : α → List β) : ∀ xs : List α,
    (xs.flatMap fun x => if c x then f x else []) = (xs.filter c).flatMap f
  | [] => rfl
  | x :: xs => by
    rw [List.flatMap_cons, flatMap_ite c f xs]
    cases h : c x <;> simp [h]

/-- The edges to a pass are as many as it requires. -/
theorem length_predecessors (h : registered.Nodup) (hp : p ∈ registered) :
    ((requirements registered requires).predecessors p).length =
      requirementCount registered requires p := by
  have hown (q : α) (rs : List α) : (rs.map (·, q)).filter (fun e => e.2 = p) =
      if decide (q = p) then rs.map (·, q) else [] := by
    by_cases hq : q = p <;> simp [List.filter_map, Function.comp_def, hq]
  have hsingle : registered.filter (fun q => decide (q = p)) = [p] := by
    rw [List.filter_eq, List.count_eq_one_of_mem h hp, List.replicate_one]
  simp only [Digraph.predecessors, requirements, List.length_map, List.filter_flatMap, hown]
  rw [flatMap_ite, hsingle, List.flatMap_singleton, List.length_map, requirementCount]

/-- The edges from a pass lead to the passes that require it, in the order of registration. -/
theorem successors_requirements (hr : r ∈ registered) :
    (requirements registered requires).successors r =
      registered.filter fun q => (requires q).contains r := by
  have hown (q : α) : ((((requires q).eraseDups.filter (registered.contains ·)).map (·, q)).filter
      (·.1 = r)).map (·.2) = if (requires q).contains r then [q] else [] := by
    have hregistered : registered.contains r = true := List.contains_iff_mem.2 hr
    have hcount : ((requires q).eraseDups.filter (registered.contains ·)).count r =
        (requires q).eraseDups.count r := List.count_filter hregistered
    simp only [List.filter_map, Function.comp_def, List.map_map, List.filter_eq, hcount]
    split
    · next hmem =>
      have hmem : r ∈ (requires q).eraseDups :=
        List.mem_eraseDups.2 (List.contains_iff_mem.1 hmem)
      rw [List.count_eq_one_of_mem (nodup_eraseDups _) hmem]
      rfl
    · next hmem =>
      have hmem : r ∉ (requires q).eraseDups := fun h =>
        hmem (List.contains_iff_mem.2 (List.mem_eraseDups.1 h))
      rw [List.count_eq_zero_of_not_mem hmem]
      rfl
  rw [Digraph.successors, requirements, List.filter_flatMap, List.map_flatMap]
  simp only [hown]
  rw [flatMap_ite, List.flatMap_singleton']

/-! ## The order -/

/-- Scheduling orders the passes along their requirements, and fails if not all come in order. -/
theorem schedule_eq (h : registered.Nodup) :
    schedule registered requires =
      let order := (requirements registered requires).topological registered
      if order.length = registered.length then some order else none := by
  have hmissing : ∀ x ∈ registered, requirementCount registered requires x =
      (((requirements registered requires).predecessors x).length : Int) :=
    fun x hx => (length_predecessors h hx).symm
  have hready : registered.eraseDups.filter (fun p => requirementCount registered requires p = 0) =
      registered.filter fun x =>
        (((requirements registered requires).predecessors x).length : Int) = 0 := by
    rw [eraseDups_of_nodup h]
    exact List.filter_congr fun x hx => by rw [hmissing x hx]
  -- the counts need not agree for names that are not registered: these never come up
  have hagree : Waiting.Agree (· ∈ registered)
      ⟨registered.filter fun x =>
          (((requirements registered requires).predecessors x).length : Int) = 0,
        requirementCount registered requires⟩
      ⟨registered.filter fun x =>
          (((requirements registered requires).predecessors x).length : Int) = 0,
        fun x => ((requirements registered requires).predecessors x).length⟩ :=
    ⟨rfl, fun x hx => List.mem_of_mem_filter hx, hmissing⟩
  have horder := orderFrom_congr (n := registered.length)
    (f := fun p => registered.filter fun q => (requires q).contains p)
    (fun x hx => (successors_requirements hx).symm) (fun x _ y hy => List.mem_of_mem_filter hy)
    hagree
  simp only [schedule, hready, horder, Digraph.topological]
  rfl

/-- Of different passes, each registered once, scheduling fails if and only if the requirements
among them are cyclic. Otherwise it returns all of them in an order in which each comes after those
that it requires. -/
theorem schedule_orders (h : registered.Nodup) :
    (schedule registered requires = none ↔
      ∃ p, Relation.TransGen (Requires registered requires) p p) ∧
    ∀ order, schedule registered requires = some order → order.Perm registered ∧
      ∀ before p after, order = before ++ p :: after →
        ∀ r, Requires registered requires p r → r ∈ before := by
  have hedge : ∀ {a b}, (requirements registered requires).Edge a b →
      a ∈ registered ∧ b ∈ registered := fun hab =>
    ⟨(edge_requirements.1 hab).2.1, (edge_requirements.1 hab).1⟩
  have hcycle : (requirements registered requires).Acyclic ↔
      ¬ ∃ p, Relation.TransGen (Requires registered requires) p p := by
    have hswap : (requirements registered requires).Edge =
        Function.swap (Requires registered requires) := by
      funext a b
      exact propext edge_requirements
    rw [Digraph.acyclic_iff, hswap]
    simp only [Relation.transGen_swap]
  have hcomplete := Digraph.length_topological h hedge
  obtain ⟨hordered, hnodup, hsubset⟩ := Digraph.ordered_topological h hedge
  rw [schedule_eq h]
  refine ⟨?_, fun order horder => ?_⟩
  · dsimp only
    split
    · next hlength => exact ⟨nofun, fun hcyclic => absurd hcyclic (hcycle.1 (hcomplete.1 hlength))⟩
    · next hlength =>
      refine ⟨fun _ => ?_, fun _ => rfl⟩
      by_contra hacyclic
      exact hlength (hcomplete.2 (hcycle.2 hacyclic))
  · dsimp only at horder
    split at horder
    · next hlength =>
      cases horder
      refine ⟨(List.subperm_of_subset hnodup hsubset).perm_of_length_le (Nat.le_of_eq hlength.symm),
        fun before p after heq r hr => ?_⟩
      exact Digraph.mem_of_ordered (heq ▸ hordered) (edge_requirements.2 hr)
    · cases horder

/-- The first pass requires the others, one of them twice, and one that is not registered; the third
requires the second, which requires nothing that is registered. The last two require one another. -/
def tangledRequirements : Nat → List Nat
  | 1 => [3, 2, 3, 9]
  | 2 => [7]
  | 3 => [2]
  | 4 => [5]
  | 5 => [4]
  | _ => []

theorem schedule_orders_tangled :
    [1, 2, 3].Nodup ∧ [1, 4, 5].Nodup ∧
    (∃ order, schedule [1, 2, 3] tangledRequirements = some order ∧ order.Perm [1, 2, 3] ∧
      ∀ before p after, order = before ++ p :: after →
        ∀ r, Requires [1, 2, 3] tangledRequirements p r → r ∈ before) ∧
    schedule [1, 4, 5] tangledRequirements = none ∧
    ∃ p, Relation.TransGen (Requires [1, 4, 5] tangledRequirements) p p := by
  have hthree : [1, 2, 3].Nodup := by decide
  have hpair : [1, 4, 5].Nodup := by decide
  have horder : schedule [1, 2, 3] tangledRequirements = some [2, 3, 1] := by decide
  have hnone : schedule [1, 4, 5] tangledRequirements = none := by decide
  exact ⟨hthree, hpair, ⟨_, horder, (schedule_orders hthree).2 _ horder⟩, hnone,
    (schedule_orders hpair).1.1 hnone⟩

end Requirements

end PlateModel
