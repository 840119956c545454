import Mathlib.Algebra.BigOperators.Group.List.Basic
import PlateModel.Proofs.Elimination.Exact
import PlateModel.Proofs.Elimination.Members

/-!
# What queries answer

For laws on categories with positive probabilities, in exact arithmetic: a query with evidence is
answered from the evidence alone, and one without it from the members of the last factor.

* `FactorGraph.Sound`: the graphs in question.
* `FactorGraph.Multiplied`, `FactorGraph.query_free`: queries without evidence, and the vertices
  whose laws are multiplied for the answer.
* `FactorGraph.query_given`: queries with evidence.
-/

namespace PlateModel

open Relation

namespace FactorGraph

variable {δ : Type}

/-- The stochastic vertices and their factors. -/
def stochastic (g : FactorGraph δ) : List (String × Factor δ) :=
  g.filterMap fun (x, f) => f.map fun f => (x, f)

theorem mem_stochastic {g : FactorGraph δ} {x : String} {f : Factor δ} :
    (x, f) ∈ g.stochastic ↔ (x, some f) ∈ g := by
  simp [stochastic, List.mem_filterMap]

theorem stochastic_sublist : ∀ g : FactorGraph δ,
    (g.stochastic.map (·.1)).Sublist (g.map (·.1))
  | [] => .slnil
  | (_, none) :: g => (stochastic_sublist g).cons _
  | (_, some _) :: g => (stochastic_sublist g).cons_cons _

theorem find_of_mem {g : FactorGraph δ} (hg : (g.map (·.1)).Nodup) {x : String}
    {o : Option (Factor δ)} (h : (x, o) ∈ g) : g.find x = .ok o := by
  have hlookup : g.lookup x = some o := Assoc.get?_of_mem (t := ⟨g⟩) hg h
  rw [find, hlookup]

/-- The stochastic vertices of a graph, with their parents. -/
def families (g : FactorGraph δ) : Families where
  vertices := g.stochastic.map (·.1)
  parents x := ((g.stochastic.lookup x).map (·.parents)).getD []

section Sound

variable {𝕜 : Type} [Field 𝕜] [LinearOrder 𝕜] {n : Nat}

/-- Every vertex has its own name, and every stochastic vertex a factor over itself with a positive
law. -/
structure Sound (n : Nat) (g : FactorGraph (List 𝕜)) : Prop where
  nodup : (g.map (·.1)).Nodup
  scope : ∀ ⦃x f⦄, (x, f) ∈ g.stochastic → f.scope = [x]
  law : ∀ ⦃x f⦄, (x, f) ∈ g.stochastic → IsPositiveLaw n f.distribution

variable {g : FactorGraph (List 𝕜)}

theorem Sound.nodup_stochastic (hg : g.Sound n) : (g.stochastic.map (·.1)).Nodup :=
  hg.nodup.sublist g.stochastic_sublist

theorem Sound.lookup_stochastic (hg : g.Sound n) {x : String} {f : Factor (List 𝕜)}
    (h : (x, f) ∈ g.stochastic) : g.stochastic.lookup x = some f :=
  Assoc.get?_of_mem (t := ⟨g.stochastic⟩) hg.nodup_stochastic h

theorem Sound.entries_factors (hg : g.Sound n) : g.factors.entries = g.stochastic :=
  Assoc.entries_ofList hg.nodup_stochastic

theorem Sound.get?_factors (hg : g.Sound n) {x : String} {f : Factor (List 𝕜)} :
    g.factors.get? x = some f ↔ (x, f) ∈ g.stochastic := by
  rw [← hg.entries_factors]
  refine ⟨Assoc.mem_of_get?, Assoc.get?_of_mem ?_⟩
  rw [Assoc.keys, hg.entries_factors]
  exact hg.nodup_stochastic

theorem Sound.keyed (hg : g.Sound n) : g.factors.Keyed where
  nodup := by
    rw [Assoc.keys, hg.entries_factors]
    exact hg.nodup_stochastic
  key x f h := by
    rw [hg.scope (hg.get?_factors.1 h)]
    exact List.mem_singleton_self x
  apart x y f f' v hf hf' hv hv' := by
    rw [hg.scope (hg.get?_factors.1 hf), List.mem_singleton] at hv
    rw [hg.scope (hg.get?_factors.1 hf'), List.mem_singleton] at hv'
    exact hv.symm.trans hv'

theorem Sound.values_factors (hg : g.Sound n) : g.factors.values = g.stochastic.map (·.2) := by
  rw [Assoc.values, hg.entries_factors]

end Sound

/-! ## Without evidence -/

section Free

variable {𝕜 : Type} [Field 𝕜] [LinearOrder 𝕜] {n : Nat} {g : FactorGraph (List 𝕜)}

/-- The probabilities of the categories of a vertex. -/
def weight (n : Nat) (g : FactorGraph (List 𝕜)) (v : String) : Fin n → 𝕜 :=
  ((g.stochastic.lookup v).map fun f => probability n f.distribution).getD 1

/-- A factor corresponds to its members: its law is the product of theirs. -/
def Weighs (w : String → Fin n → 𝕜) (f : Factor (List 𝕜)) (m : Factor (List String)) : Prop :=
  f.scope = m.scope ∧ f.parents = m.parents ∧ (∀ v ∈ m.distribution, Supports none (w v)) ∧
    f.distribution = List.ofFn (share (m.distribution.map w).prod)

/-- The factor of a vertex has this vertex for its only member. -/
theorem Sound.weighs_factors (hg : g.Sound n) :
    List.Forall₂ (Weighs (weight n g)) g.factors.values g.families.factors := by
  rw [hg.values_factors, Families.factors, families, List.map_map, List.forall₂_map_left_iff,
    List.forall₂_map_right_iff, List.forall₂_same]
  rintro ⟨x, f⟩ hf
  have hlaw := hg.law hf
  have hlookup := hg.lookup_stochastic hf
  have hweight : weight n g x = probability n f.distribution := by
    rw [weight, hlookup, Option.map_some, Option.getD_some]
  refine ⟨hg.scope hf, ?_, ?_, ?_⟩
  · show f.parents = ((g.stochastic.lookup x).map (·.parents)).getD []
    rw [hlookup, Option.map_some, Option.getD_some]
  · intro v hv
    obtain rfl := List.mem_singleton.1 hv
    rw [hweight]
    exact hlaw.supports
  · show f.distribution = List.ofFn (share ([x].map (weight n g)).prod)
    rw [List.map_singleton, List.prod_singleton, hweight, hlaw.share_probability,
      hlaw.ofFn_probability]

/-- What is multiplied for the answer to a query for a stochastic vertex without evidence: at least
the vertices that lead to it, and only such that are tied to it. -/
structure Multiplied (n : Nat) [NeZero n] (g : FactorGraph (List 𝕜)) (x : String)
    (ms : List String) : Prop where
  last : ∃ m, Factor.eliminateAll memberRules g.families.factors
    (g.eliminated x ([] : List (String × Nat))) = .ok [m] ∧ m.distribution = ms
  nodup : ms.Nodup
  vertices : ms ⊆ g.families.vertices
  leading : ∀ v ∈ g.families.vertices, g.families.Leads v x → v ∈ ms
  tied : ∀ v ∈ ms, ReflTransGen (g.families.Tied x) x v
  answer : query exactRules g x [] = .ok (share (ms.map (weight n g)).prod 0)

/-- A vertex whose factor mentions the variable that is eliminated first, like that of one that is
multiplied, is multiplied too. -/
theorem Multiplied.mem_of_first [NeZero n] {x u v w : String} {ms ys : List String}
    (h : Multiplied n g x ms) (horder : g.eliminated x ([] : List (String × Nat)) = u :: ys)
    (hv : g.families.Mentions v u) (hvms : v ∈ ms) (hwF : w ∈ g.families.vertices)
    (hw : g.families.Mentions w u) : w ∈ ms := by
  obtain ⟨m, hm, rfl⟩ := h.last
  rw [horder] at hm
  exact Families.mem_of_first hv hwF hw hm (List.mem_singleton_self m) hvms

/-- Vertices that are eliminated before all others, children first, are not multiplied. -/
theorem Multiplied.not_mem_of_childrenFirst [NeZero n] {x v : String} {ms ys zs : List String}
    (h : Multiplied n g x ms)
    (horder : g.eliminated x ([] : List (String × Nat)) = ys ++ zs)
    (hys : g.families.ChildrenFirst ys) (hv : v ∈ ms) : v ∉ ys := by
  obtain ⟨m, hm, rfl⟩ := h.last
  rw [horder] at hm
  exact Families.not_mem_of_childrenFirst hys hm (List.mem_singleton_self m) hv

variable [IsStrictOrderedRing 𝕜]

theorem supports_prod {w : String → Fin n → 𝕜} : ∀ {ms : List String},
    (∀ v ∈ ms, Supports none (w v)) → Supports none (ms.map w).prod
  | [], _ => fun _ => one_pos
  | v :: ms, h => by
    rw [List.map_cons, List.prod_cons]
    have hrest := supports_prod fun u hu => h u (List.mem_cons_of_mem _ hu)
    exact (h v (List.mem_cons_self ..)).mul hrest (by simp)

theorem simulates_weighs [NeZero n] (w : String → Fin n → 𝕜) (xs : List String) :
    Factor.Simulates exactRules memberRules xs (Weighs w) where
  scope _ _ h := h.1
  parents _ _ h := h.2.1
  multiply x f m f' m' _ _ _ h h' := by
    obtain ⟨hscope, hparents, hw, hlaw⟩ := h
    obtain ⟨hscope', hparents', hw', hlaw'⟩ := h'
    have hpos := supports_prod hw
    have hpos' := supports_prod hw'
    have hprod := hpos.mul hpos' (by simp)
    have hproduct := product_share (f.scope ++ f'.scope).eraseDups hpos.sum_pos.ne'
      hpos'.sum_pos.ne' hprod.sum_pos.ne'
    rw [← hlaw, ← hlaw', ← List.prod_append, ← List.map_append] at hproduct
    refine ⟨_, _, bind_eq_ok.2 ⟨_, hproduct, rfl⟩, rfl, ?_, ?_, ?_, rfl⟩
    · rw [hscope, hscope']
    · rw [hparents, hparents']
    · exact fun v hv => (List.mem_append.1 hv).elim (hw v) (hw' v)
  without x f m _ _ h := by
    obtain ⟨hscope, hparents, hw, hlaw⟩ := h
    exact ⟨by simp only [Factor.without, hscope], by simp only [Factor.without, hparents], hw, hlaw⟩

/-- Without evidence, the answer is one for a vertex that is not stochastic. For a stochastic one it
is the share of the first category in the product of the laws of some vertices. -/
theorem query_free [NeZero n] (hg : g.Sound n) {x : String} (hx : x ∈ g.map (·.1)) :
    (x ∉ g.families.vertices → query exactRules g x [] = .ok 1) ∧
    (x ∈ g.families.vertices → ∃ ms, Multiplied n g x ms) := by
  obtain ⟨⟨x, o⟩, ho, rfl⟩ := List.mem_map.1 hx
  dsimp only
  have hmem : ∀ y, y ∈ g.eliminated x ([] : List (String × Nat)) ↔ y ∈ g.map (·.1) ∧ y ≠ x := by
    simp [eliminated]
  have hstart := Families.stage_factors (F := g.families) (x := x) hg.nodup_stochastic
  have hnodup : (g.eliminated x ([] : List (String × Nat))).Nodup := hg.nodup.filter _
  obtain ⟨ms, hms, hstage⟩ := hstart.eliminateAll hnodup
    (fun y hy => ⟨List.not_mem_nil, ((hmem y).1 hy).2⟩) List.not_mem_nil
  obtain ⟨fs, ms', hfs, hms', hweighs⟩ := (simulates_weighs (weight n g)
    (g.eliminated x ([] : List (String × Nat)))).eliminateAll (List.Subset.refl _) hg.weighs_factors
  cases hms.symm.trans hms'
  obtain ⟨hnone, hsome⟩ := hstage.settled fun v hv hvE => by
    by_contra hvx
    refine hvE (List.mem_append_left _ (List.mem_reverse.2 ((hmem v).2 ⟨?_, hvx⟩)))
    exact g.stochastic_sublist.subset hv
  have hquery : query exactRules g x [] = Factor.report exactRules fs := by
    rw [query_of_observe (find_of_mem hg.nodup ho) (rfl : g.observe exactRules g.factors [] = _)
      hg.keyed, hfs]
    rfl
  refine ⟨fun hxF => ?_, fun hxF => ?_⟩
  · obtain rfl := hnone hxF
    cases hweighs
    exact hquery
  · obtain ⟨m, rfl, hnodup, hsubset, hleads, htied⟩ := hsome hxF
    obtain ⟨f, fs', hf, hnil, rfl⟩ := List.forall₂_cons_right_iff.1 hweighs
    cases hnil
    refine ⟨m.distribution, ⟨m, hms, rfl⟩, hnodup, hsubset, hleads, htied, ?_⟩
    rw [hquery]
    show exactRules.report f.distribution = _
    rw [hf.2.2.2, report_ofFn]

end Free

/-! ## With evidence -/

section Given

variable {𝕜 : Type} [Field 𝕜] [LinearOrder 𝕜] {n : Nat} {g : FactorGraph (List 𝕜)}
  {given : String → Option (Fin n)} {fs : Factors (List 𝕜)}

/-- A table of factors in which the factors of some vertices have been replaced by laws on the
categories that are given for them, and the others are positive. -/
structure Observed (given : String → Option (Fin n)) (fs : Factors (List 𝕜)) : Prop where
  nodup : fs.keys.Nodup
  scope : ∀ ⦃x f⦄, fs.get? x = some f → f.scope = [x]
  law : ∀ ⦃x f⦄, fs.get? x = some f → IsLaw (given x) f.distribution
  parents : ∀ ⦃x f k⦄, fs.get? x = some f → given x = some k → f.parents = []

theorem Sound.observed (hg : g.Sound n) :
    Observed (fun _ => (none : Option (Fin n))) g.factors where
  nodup := hg.keyed.nodup
  scope _ _ h := hg.scope (hg.get?_factors.1 h)
  law _ _ h := (hg.law (hg.get?_factors.1 h)).isLaw
  parents _ _ _ _ h := nomatch h

theorem Observed.keyed (h : Observed given fs) : fs.Keyed where
  nodup := h.nodup
  key x f hf := by
    rw [h.scope hf]
    exact List.mem_singleton_self x
  apart x y f f' v hf hf' hv hv' := by
    rw [h.scope hf, List.mem_singleton] at hv
    rw [h.scope hf', List.mem_singleton] at hv'
    exact hv.symm.trans hv'

/-- A factor is a law on the category that is given for its vertex, or a positive law on vertices
for which nothing is given. -/
def Fits (given : String → Option (Fin n)) (f : Factor (List 𝕜)) : Prop :=
  (∃ x k, given x = some k ∧ f.scope = [x] ∧ f.parents = [] ∧ IsLaw (some k) f.distribution) ∨
    ((∀ v ∈ f.scope, given v = none) ∧ IsLaw (none : Option (Fin n)) f.distribution)

/-- What is given for the vertex of a factor. -/
def givenFor (given : String → Option (Fin n)) (f : Factor (List 𝕜)) : Option (Fin n) :=
  match f.scope with
  | [x] => given x
  | _ => none

omit [Field 𝕜] [LinearOrder 𝕜] in
theorem lookup_of_givenFor {f : Factor (List 𝕜)} {k : Fin n} (h : givenFor given f = some k) :
    ∃ x, given x = some k := by
  unfold givenFor at h
  split at h
  · exact ⟨_, h⟩
  · cases h

theorem Fits.isLaw {f : Factor (List 𝕜)} (h : Fits given f) :
    IsLaw (givenFor given f) f.distribution := by
  rcases h with ⟨x, k, hk, hscope, -, hlaw⟩ | ⟨hnone, hlaw⟩
  · simp only [givenFor, hscope, hk]
    exact hlaw
  · have : givenFor given f = none := by
      unfold givenFor
      split
      · next x hscope => exact hnone x (hscope ▸ List.mem_singleton_self x)
      · rfl
    rw [this]
    exact hlaw

theorem Observed.fits (h : Observed given fs) {f : Factor (List 𝕜)} (hf : f ∈ fs.values) :
    Fits given f := by
  obtain ⟨⟨x, f⟩, hmem, rfl⟩ := List.mem_map.1 hf
  have hget := Assoc.get?_of_mem h.nodup hmem
  have hlaw := h.law hget
  cases hgiven : given x with
  | some k =>
    rw [hgiven] at hlaw
    exact .inl ⟨x, k, hgiven, h.scope hget, h.parents hget hgiven, hlaw⟩
  | none =>
    rw [hgiven] at hlaw
    refine .inr ⟨fun v hv => ?_, hlaw⟩
    rw [h.scope hget, List.mem_singleton] at hv
    exact hv ▸ hgiven

/-- Only factors on vertices for which nothing is given mention such a vertex. -/
theorem Fits.of_mentions {f : Factor (List 𝕜)} (h : Fits given f) {x : String}
    (hx : given x = none) (hf : f.mentions x) :
    (∀ v ∈ f.scope, given v = none) ∧ IsLaw (none : Option (Fin n)) f.distribution := by
  rcases h with ⟨y, k, hk, hscope, hparents, -⟩ | h
  · rw [Factor.mentions_iff, hscope, hparents] at hf
    rcases hf with hf | hf
    · rw [List.mem_singleton.1 hf, hk] at hx
      cases hx
    · cases hf
  · exact h

variable [IsStrictOrderedRing 𝕜]

theorem simulates_fits [NeZero n] (given : String → Option (Fin n)) {xs : List String}
    (hxs : ∀ x ∈ xs, given x = none) :
    Factor.Simulates exactRules memberRules xs fun (f : Factor (List 𝕜)) m =>
      Fits given f ∧ f.scope = m.scope ∧ f.parents = m.parents where
  scope _ _ h := h.2.1
  parents _ _ h := h.2.2
  multiply x f m f' m' hx hf hf' h h' := by
    obtain ⟨hfits, hscope, hparents⟩ := h
    obtain ⟨hfits', hscope', hparents'⟩ := h'
    obtain ⟨hnone, hlaw⟩ := hfits.of_mentions (hxs x hx) hf
    obtain ⟨hnone', hlaw'⟩ := hfits'.of_mentions (hxs x hx) hf'
    obtain ⟨ps, hps, hproduct⟩ :=
      hlaw.product (f.scope ++ f'.scope).eraseDups hlaw' fun _ _ h => nomatch h
    refine ⟨_, _, bind_eq_ok.2 ⟨ps, hps, rfl⟩, rfl, .inr ⟨fun v hv => ?_, hproduct⟩, ?_, ?_⟩
    · exact (List.mem_append.1 (List.mem_eraseDups.1 hv)).elim (hnone v) (hnone' v)
    · rw [hscope, hscope']
    · rw [hparents, hparents']
  without x f m hx hf h := by
    obtain ⟨hfits, hscope, hparents⟩ := h
    obtain ⟨hnone, hlaw⟩ := hfits.of_mentions (hxs x hx) hf
    refine ⟨.inr ⟨fun v hv => hnone v (List.mem_filter.1 hv).1, hlaw⟩, ?_, ?_⟩
    · simp only [Factor.without, hscope]
    · simp only [Factor.without, hparents]

theorem Observed.put (h : Observed given fs) (x : String) (k : Fin n) :
    Observed (Function.update given x (some k))
      (fs.put x ⟨[x], pointLaw n (k + 1), []⟩) where
  nodup := Assoc.nodup_put h.nodup
  scope y f hf := by
    rw [Assoc.get?_put] at hf
    split at hf
    · next hy => cases hf; rw [hy]
    · exact h.scope hf
  law y f hf := by
    rw [Assoc.get?_put] at hf
    split at hf
    · next hy =>
      cases hf
      rw [hy, Function.update_self]
      exact isLaw_pointLaw k
    · next hy =>
      rw [Function.update_of_ne hy]
      exact h.law hf
  parents y f j hf hj := by
    rw [Assoc.get?_put] at hf
    split at hf
    · cases hf; rfl
    · next hy =>
      rw [Function.update_of_ne hy] at hj
      exact h.parents hf hj

/-- Categories by their numbers. -/
def numbered (evidence : List (String × Fin n)) : List (String × Nat) :=
  evidence.map fun (x, k) => (x, k + 1)

theorem exists_numbered : ∀ {evidence : List (String × Nat)},
    (∀ e ∈ evidence, 1 ≤ e.2 ∧ e.2 ≤ n) → ∃ positions : List (String × Fin n),
      numbered positions = evidence
  | [], _ => ⟨[], rfl⟩
  | (x, k) :: evidence, h => by
    obtain ⟨hk, hrest⟩ := List.forall_mem_cons.1 h
    obtain ⟨positions, hpositions⟩ := exists_numbered hrest
    refine ⟨(x, ⟨k - 1, by omega⟩) :: positions, ?_⟩
    rw [numbered, List.map_cons, ← numbered, hpositions]
    simp only [Nat.sub_add_cancel hk.1]

/-- Observing stochastic vertices succeeds. -/
theorem Sound.observe (hg : g.Sound n) : ∀ {evidence : List (String × Fin n)}
    {given : String → Option (Fin n)} {fs : Factors (List 𝕜)}, Observed given fs →
    (∀ x ∈ g.families.vertices, fs.contains x) → (evidence.map (·.1)).Nodup →
    evidence.map (·.1) ⊆ g.families.vertices →
    ∃ fs', g.observe exactRules fs (numbered evidence) = .ok fs' ∧
      Observed (fun x => (evidence.lookup x).or (given x)) fs' ∧
      ∀ x ∈ g.families.vertices, fs'.contains x
  | [], given, fs, h, hall, _, _ => ⟨fs, rfl, by simpa using h, hall⟩
  | (x, k) :: evidence, given, fs, h, hall, hnodup, hvertices => by
    obtain ⟨hx, hrest⟩ := List.cons_subset.1 hvertices
    obtain ⟨hfresh, hdistinct⟩ := List.nodup_cons.1 hnodup
    obtain ⟨f, hf⟩ : ∃ f, (x, f) ∈ g.stochastic := by
      obtain ⟨⟨y, f⟩, hf, hy⟩ := List.mem_map.1 hx
      obtain rfl : y = x := hy
      exact ⟨f, hf⟩
    have hfind : g.find x = .ok (some f) := find_of_mem hg.nodup (mem_stochastic.1 hf)
    have hobserved : exactRules.observed x (k + 1) f.distribution =
        .ok (some (pointLaw n (k + 1))) := by
      have hlength := (hg.law hf).length_eq
      rw [exactRules]
      dsimp only
      rw [hlength, if_pos ⟨Nat.succ_le_succ (Nat.zero_le _), k.isLt⟩]
    obtain ⟨fs', hfs', h', hall'⟩ := hg.observe (h.put x k)
      (fun y hy => Assoc.contains_put.2 (.inr (hall y hy))) hdistinct hrest
    refine ⟨fs', ?_, ?_, hall'⟩
    · rw [numbered, List.map_cons, FactorGraph.observe, hfind]
      simp only [bind, Except.bind, Factors.observe, hobserved]
      exact hfs'
    · have hlookup : (fun y => (evidence.lookup y).or (Function.update given x (some k) y)) =
          fun y => (((x, k) :: evidence).lookup y).or (given y) := by
        funext y
        rw [List.lookup_cons]
        by_cases hy : y = x
        · have hnone : evidence.lookup x = none := by
            refine Option.eq_none_iff_forall_ne_some.2 fun j hj => hfresh ?_
            exact List.mem_map.2 ⟨(x, j), Assoc.mem_of_get? (t := ⟨evidence⟩) hj, rfl⟩
          rw [hy, hnone, Function.update_self, beq_self_eq_true]
          rfl
        · have hb : (y == x) = false := by simpa using hy
          rw [hb, Function.update_of_ne hy]
      rw [← hlookup]
      exact h'

section Report

variable {fs : List (Factor (List 𝕜))} {k j : Fin n}

omit [Field 𝕜] [LinearOrder 𝕜] [IsStrictOrderedRing 𝕜] in
theorem names_givenFor {f : Factor (List 𝕜)} :
    Names (givenFor given) (givenFor given f) fs k ↔ ∃ h ∈ f :: fs, givenFor given h = some k := by
  simp only [Names, List.mem_cons, exists_eq_or_imp]

/-- The product of factors that fit what is given is a law on the given category, if this is the
same for all of them. -/
theorem report_of_same [NeZero n] (hfits : ∀ f ∈ fs, Fits given f)
    (hsome : ∃ f ∈ fs, givenFor given f = some k)
    (hsame : ∀ f ∈ fs, ∀ j, givenFor given f = some j → j = k) :
    Factor.report exactRules fs = .ok (if k = 0 then 1 else 0) := by
  cases fs with
  | nil =>
    obtain ⟨f, hf, -⟩ := hsome
    cases hf
  | cons f fs =>
    have hnames {j : Fin n} (hj : Names (givenFor given) (givenFor given f) fs j) : j = k := by
      obtain ⟨h, hh, hj⟩ := names_givenFor.1 hj
      exact hsame h hh j hj
    obtain ⟨p, d, hp, hd, hdk⟩ := product_of_same (hfits f (List.mem_cons_self ..)).isLaw
      (fun h hh => (hfits h (List.mem_cons_of_mem _ hh)).isLaw) fun i j hi hj =>
        (hnames hi).trans (hnames hj).symm
    rw [hdk k (names_givenFor.2 hsome)] at hd
    rw [Factor.report, hp]
    exact report_of_point hd

/-- Factors that fit what is given have no product if the given categories differ. -/
theorem report_of_different [NeZero n] (hkj : k ≠ j) (hfits : ∀ f ∈ fs, Fits given f)
    (hk : ∃ f ∈ fs, givenFor given f = some k) (hj : ∃ f ∈ fs, givenFor given f = some j) :
    ∃ e, Factor.report exactRules fs = .error e := by
  cases fs with
  | nil =>
    obtain ⟨f, hf, -⟩ := hk
    cases hf
  | cons f fs =>
    obtain ⟨e, he⟩ := product_of_different (hfits f (List.mem_cons_self ..)).isLaw
      (fun h hh => (hfits h (List.mem_cons_of_mem _ hh)).isLaw) hkj (names_givenFor.2 hk)
      (names_givenFor.2 hj)
    exact ⟨e, by rw [Factor.report, he]; rfl⟩

end Report

/-- With evidence, what is left of the factors fits it, and there is a factor for each observed
vertex. -/
theorem Sound.query_numbered [NeZero n] (hg : g.Sound n) {x : String} (hx : x ∈ g.map (·.1))
    {evidence : List (String × Fin n)} (hnodup : (evidence.map (·.1)).Nodup)
    (hvertices : evidence.map (·.1) ⊆ g.families.vertices) :
    ∃ fs, query exactRules g x (numbered evidence) = Factor.report exactRules fs ∧
      (∀ f ∈ fs, Fits (evidence.lookup ·) f) ∧
      ∀ y k, (y, k) ∈ evidence → ∃ f ∈ fs, givenFor (evidence.lookup ·) f = some k := by
  obtain ⟨⟨x, o⟩, ho, rfl⟩ := List.mem_map.1 hx
  dsimp only
  have hkeys : (numbered evidence).map (·.1) = evidence.map (·.1) := by
    rw [numbered, List.map_map]
    rfl
  have hlookup {y : String} {k : Fin n} (h : (y, k) ∈ evidence) : evidence.lookup y = some k :=
    Assoc.get?_of_mem (t := ⟨evidence⟩) hnodup h
  have hnone : ∀ y ∈ g.eliminated x (numbered evidence), evidence.lookup y = none := by
    intro y hy
    refine Option.eq_none_iff_forall_ne_some.2 fun k hk => ?_
    have hmem : y ∈ (numbered evidence).map (·.1) :=
      hkeys ▸ List.mem_map_of_mem (f := (·.1)) (Assoc.mem_of_get? (t := ⟨evidence⟩) hk)
    have hy := (List.mem_filter.1 hy).2
    simp [hmem] at hy
  obtain ⟨table, htable, hobserved, hall⟩ := hg.observe hg.observed
    (fun y hy => Assoc.mem_keys_iff_contains.1 (by rwa [Assoc.keys, hg.entries_factors]))
    hnodup hvertices
  simp only [Option.or_none] at hobserved
  have hrel : List.Forall₂ (fun (f : Factor (List 𝕜)) m => Fits (evidence.lookup ·) f ∧
      f.scope = m.scope ∧ f.parents = m.parents) table.values
      (table.values.map fun f => (⟨f.scope, [], f.parents⟩ : Factor (List String))) := by
    rw [List.forall₂_map_right_iff, List.forall₂_same]
    exact fun f hf => ⟨hobserved.fits hf, rfl, rfl⟩
  obtain ⟨fs, ms, hfs, -, hfits⟩ :=
    (simulates_fits _ hnone).eliminateAll (List.Subset.refl _) hrel
  rw [query_of_observe (find_of_mem hg.nodup ho) htable hobserved.keyed, hfs]
  refine ⟨fs, rfl, ((List.forall₂_and_left _ _).1 hfits).1, fun y k hyk => ?_⟩
  · have hy := hvertices (List.mem_map_of_mem (f := (·.1)) hyk)
    obtain ⟨f, hf⟩ := Assoc.mem_keys_iff.1 (Assoc.mem_keys_iff_contains.2 (hall y hy))
    have hscope := hobserved.scope hf
    refine ⟨f, Factor.mem_eliminateAll ?_ (fun z hz => ?_) hfs, ?_⟩
    · exact List.mem_map_of_mem (f := (·.2)) (Assoc.mem_of_get? hf)
    · rw [Bool.eq_false_iff, Ne, Factor.mentions_iff, hscope,
        hobserved.parents hf (hlookup hyk)]
      rintro (hzy | hz')
      · obtain rfl := List.mem_singleton.1 hzy
        cases (hnone z hz).symm.trans (hlookup hyk)
      · cases hz'
    · simp only [givenFor, hscope, hlookup hyk]

/-- With evidence, the answer tells whether the given category is the first, if it is the same for
all vertices; otherwise there is none. -/
theorem query_given (hg : g.Sound n) {x : String} (hx : x ∈ g.map (·.1))
    {evidence : List (String × Nat)} (hne : evidence ≠ []) (hnodup : (evidence.map (·.1)).Nodup)
    (hev : ∀ e ∈ evidence, e.1 ∈ g.families.vertices ∧ 1 ≤ e.2 ∧ e.2 ≤ n) :
    (∀ k, (∀ e ∈ evidence, e.2 = k) →
      query exactRules g x evidence = .ok (if k = 1 then 1 else 0)) ∧
    ((∃ e ∈ evidence, ∃ e' ∈ evidence, e.2 ≠ e'.2) →
      ∃ e, query exactRules g x evidence = .error e) := by
  obtain ⟨positions, rfl⟩ := exists_numbered fun e he => (hev e he).2
  have hkeys : (numbered positions).map (·.1) = positions.map (·.1) := by
    rw [numbered, List.map_map]
    rfl
  have hn : NeZero n := by
    obtain ⟨e, he⟩ := List.exists_mem_of_ne_nil _ hne
    exact ⟨by have := (hev e he).2; omega⟩
  obtain ⟨fs, hquery, hfits, hall⟩ := hg.query_numbered hx (hkeys ▸ hnodup) (by
    intro y hy
    rw [← hkeys] at hy
    obtain ⟨e, he, rfl⟩ := List.mem_map.1 hy
    exact (hev e he).1)
  have hmem {e : String × Nat} (he : e ∈ numbered positions) :
      ∃ k : Fin n, (e.1, k) ∈ positions ∧ e.2 = k + 1 := by
    obtain ⟨⟨y, k⟩, hyk, rfl⟩ := List.mem_map.1 he
    exact ⟨k, hyk, rfl⟩
  rw [hquery]
  refine ⟨fun k hk => ?_, fun ⟨e, he, e', he', hne⟩ => ?_⟩
  · obtain ⟨e, he⟩ := List.exists_mem_of_ne_nil _ hne
    obtain ⟨j, hj, hej⟩ := hmem he
    obtain rfl := (hk e he).symm.trans hej
    rw [report_of_same hfits (hall _ _ hj) fun f hf i hi => ?_]
    · simp only [Fin.ext_iff, Fin.val_zero, Nat.add_eq_right]
    · obtain ⟨y, hy⟩ := lookup_of_givenFor hi
      have := hk _ (List.mem_map_of_mem (f := fun (x, k) => (x, k.val + 1))
        (Assoc.mem_of_get? (t := ⟨positions⟩) hy))
      simpa [Fin.ext_iff] using this
  · obtain ⟨k, hk, hek⟩ := hmem he
    obtain ⟨j, hj, hej⟩ := hmem he'
    refine report_of_different (fun hkj => hne ?_) hfits (hall _ _ hk) (hall _ _ hj)
    rw [hek, hej, hkj]

end Given

end FactorGraph

end PlateModel
