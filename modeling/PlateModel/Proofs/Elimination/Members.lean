import Mathlib.Data.List.Nodup
import Mathlib.Data.List.Pairwise
import Mathlib.Logic.Relation
import PlateModel.Proofs.Elimination.Steps

/-!
# The members of a factor

Every factor is a product of factors of vertices, its members. Elimination of a variable merges the
factors that mention it, as a variable or as a parent, and drops the product if no variable is left.
A vertex that leads to another one through stochastic vertices stays in a factor as long as the
other is not eliminated, and in the end these two are in the same factor. Which other vertices are
in it depends on the order: two vertices whose factors mention a variable are merged if this
variable is the first, and vertices that come after their children are dropped one by one.

* `memberRules`: rules for factors of which nothing but the members is known.
* `Families`: the vertices that have factors, and their parents.
* `Families.Stage`: what holds while variables are eliminated; `Stage.eliminate` says that each step
  keeps it.
* `Families.Stage.settled`: the members of the factor that is left at the end.
* `Families.mem_of_first`, `Families.not_mem_of_childrenFirst`: two orders that tell what is tied
  from what is not.
-/

namespace PlateModel

open Relation

/-- Rules for factors of which nothing but the members is known. -/
def memberRules : FactorRules (List String) Unit Unit where
  product _ ms ns := .ok (ms ++ ns)
  observed _ _ _ := .ok none
  report _ := .ok ()
  nothing := ()

namespace Factor

/-- What the product of factors is made of. -/
theorem product_members : ∀ (fs : List (Factor (List String))) (f : Factor (List String)),
    ∃ p, product memberRules f fs = .ok p ∧
      (∀ v, v ∈ p.parents ↔ ∃ g ∈ f :: fs, v ∈ g.parents) ∧
      p.distribution = ((f :: fs).map (·.distribution)).flatten
  | [], f => ⟨f, rfl, by simp, by simp⟩
  | g :: fs, f => by
    obtain ⟨p, hp, hparents, hmembers⟩ := product_members fs
      ⟨(f.scope ++ g.scope).eraseDups, f.distribution ++ g.distribution,
        (f.parents ++ g.parents).eraseDups⟩
    refine ⟨p, bind_eq_ok.2 ⟨_, rfl, hp⟩, fun v => ?_, ?_⟩
    · rw [hparents]
      simp only [List.mem_cons, exists_eq_or_imp, List.mem_eraseDups, List.mem_append, or_assoc]
    · simp [hmembers]

/-- A factor is the product of those factors of a list that mention a variable, without it. -/
structure Merges (fs : List (Factor (List String))) (x : String) (p : Factor (List String)) :
    Prop where
  scope : ∀ v, v ∈ p.scope ↔ v ≠ x ∧ ∃ g ∈ fs, g.mentions x ∧ v ∈ g.scope
  parents : ∀ v, v ∈ p.parents ↔ v ≠ x ∧ ∃ g ∈ fs, g.mentions x ∧ v ∈ g.parents
  distribution : p.distribution = ((fs.filter (·.mentions x)).map (·.distribution)).flatten

theorem Merges.mem_members {fs : List (Factor (List String))} {x : String}
    {p : Factor (List String)} (hp : Merges fs x p) (v : String) :
    v ∈ p.distribution ↔ ∃ g ∈ fs, g.mentions x ∧ v ∈ g.distribution := by
  rw [hp.distribution]
  simp [List.mem_flatten, List.mem_filter, and_assoc]

/-- What elimination of a variable makes of factors of which the members are known. -/
theorem eliminate_members (fs : List (Factor (List String))) (x : String) :
    ∃ fs', eliminate memberRules fs x = .ok fs' ∧
      ((fs.filter (·.mentions x) = [] ∧ fs' = fs) ∨ ∃ p, Merges fs x p ∧
        fs' = fs.filter (!·.mentions x) ++ if p.scope = [] then [] else [p]) := by
  rw [eliminate]
  cases hrelevant : fs.filter (·.mentions x) with
  | nil => exact ⟨fs, rfl, .inl ⟨rfl, rfl⟩⟩
  | cons f rest =>
    obtain ⟨p, hp, hparents, hmembers⟩ := product_members rest f
    have hmem {g : Factor (List String)} : g ∈ f :: rest ↔ g ∈ fs ∧ g.mentions x := by
      rw [← hrelevant, List.mem_filter]
    refine ⟨_, bind_eq_ok.2 ⟨p, hp, rfl⟩, .inr ⟨p.without x, ⟨fun v => ?_, fun v => ?_, ?_⟩, rfl⟩⟩
    · simp only [without, List.mem_filter, mem_scope_product hp, hmem, and_assoc,
        decide_eq_true_iff, ne_eq]
      exact and_comm
    · simp only [without, List.mem_filter, hparents, hmem, and_assoc, decide_eq_true_iff, ne_eq]
      exact and_comm
    · rw [hrelevant]
      exact hmembers

/-- A factor that is there afterwards was there before and does not mention the variable, or it is
the product of those that do. -/
theorem mem_or_merges {fs fs' : List (Factor (List String))} {x : String}
    {f : Factor (List String)} (h : eliminate memberRules fs x = .ok fs') (hf : f ∈ fs') :
    f ∈ fs ∧ f.mentions x = false ∨ Merges fs x f := by
  obtain ⟨_, hfs', ⟨hnone, rfl⟩ | ⟨p, hp, rfl⟩⟩ := eliminate_members fs x <;>
    cases h.symm.trans hfs'
  · exact .inl ⟨hf, by simpa using List.filter_eq_nil_iff.1 hnone f hf⟩
  · rcases List.mem_append.1 hf with hf | hf
    · exact .inl (by simpa using hf)
    · split at hf
      · cases hf
      · exact .inr (List.mem_singleton.1 hf ▸ hp)

end Factor

/-- The vertices that have factors, and the parents of each. -/
structure Families where
  vertices : List String
  parents : String → List String

namespace Families

variable {F : Families} {x : String} {E : List String} {fs fs' : List (Factor (List String))}

/-- A vertex with a factor is a parent of another one. -/
def Feeds (F : Families) (v c : String) : Prop := c ∈ F.vertices ∧ v ∈ F.vertices ∧ v ∈ F.parents c

/-- A vertex with a factor leads to another one through such vertices. -/
abbrev Leads (F : Families) : String → String → Prop := ReflTransGen F.Feeds

/-- The factor of a vertex mentions the vertex itself and its parents. -/
def Mentions (F : Families) (v u : String) : Prop := u = v ∨ u ∈ F.parents v

/-- The factors of two vertices mention the same variable, and this is not the one in question,
which is never eliminated. -/
def Tied (F : Families) (x v w : String) : Prop :=
  v ∈ F.vertices ∧ w ∈ F.vertices ∧ ∃ u ≠ x, F.Mentions v u ∧ F.Mentions w u

/-- The factors of the vertices. -/
def factors (F : Families) : List (Factor (List String)) :=
  F.vertices.map fun v => ⟨[v], [v], F.parents v⟩

/-- What holds after some variables have been eliminated on the way to the factor of a vertex. -/
structure Stage (F : Families) (x : String) (E : List String) (fs : List (Factor (List String))) :
    Prop where
  scope : ∀ ⦃f⦄, f ∈ fs → ∀ v, v ∈ f.scope ↔ v ∈ f.distribution ∧ v ∉ E
  parents : ∀ ⦃f⦄, f ∈ fs → ∀ u, u ∈ f.parents ↔ (∃ v ∈ f.distribution, u ∈ F.parents v) ∧ u ∉ E
  nonempty : ∀ ⦃f⦄, f ∈ fs → f.scope ≠ []
  nodup : (fs.map (·.distribution)).flatten.Nodup
  vertices : ∀ ⦃f⦄, f ∈ fs → f.distribution ⊆ F.vertices
  /-- Every vertex that leads to the one in question is in some factor. -/
  leading : ∀ ⦃v⦄, v ∈ F.vertices → F.Leads v x → ∃ f ∈ fs, v ∈ f.distribution
  /-- A vertex that has been eliminated is in the same factor as its children. -/
  family : ∀ ⦃f g v c⦄, f ∈ fs → g ∈ fs → v ∈ f.distribution → c ∈ g.distribution →
    v ∈ F.parents c → v ∈ E → f = g
  tied : ∀ ⦃f v w⦄, f ∈ fs → v ∈ f.distribution → w ∈ f.distribution →
    ReflTransGen (F.Tied x) v w

theorem mem_factors {f : Factor (List String)} :
    f ∈ F.factors ↔ ∃ v ∈ F.vertices, f = ⟨[v], [v], F.parents v⟩ := by
  simp only [factors, List.mem_map, eq_comm]

theorem stage_factors (hF : F.vertices.Nodup) : F.Stage x [] F.factors := by
  constructor
  · intro f hf v
    obtain ⟨w, -, rfl⟩ := mem_factors.1 hf
    simp
  · intro f hf u
    obtain ⟨w, -, rfl⟩ := mem_factors.1 hf
    simp
  · intro f hf
    obtain ⟨w, -, rfl⟩ := mem_factors.1 hf
    simp
  · have hsingle : (F.factors.map (·.distribution)).flatten = F.vertices := by
      rw [factors, List.map_map, ← List.flatMap_def]
      exact List.flatMap_singleton' _
    rw [hsingle]
    exact hF
  · intro f hf
    obtain ⟨w, hw, rfl⟩ := mem_factors.1 hf
    simpa using hw
  · exact fun v hv _ => ⟨_, List.mem_map_of_mem hv, List.mem_singleton_self v⟩
  · exact fun _ _ _ _ _ _ _ _ _ h => nomatch h
  · intro f v w hf hv hw
    obtain ⟨u, -, rfl⟩ := mem_factors.1 hf
    obtain rfl := List.mem_singleton.1 hv
    obtain rfl := List.mem_singleton.1 hw
    exact .refl

/-- Two factors that share a member are the same. -/
theorem Stage.eq_of_mem (h : F.Stage x E fs) {f g : Factor (List String)} (hf : f ∈ fs)
    (hg : g ∈ fs) {v : String} (hvf : v ∈ f.distribution) (hvg : v ∈ g.distribution) : f = g := by
  have hapart := List.pairwise_map.1 (List.nodup_flatten.1 h.nodup).2
  by_cases heq : f = g
  · exact heq
  · have hsymm : Std.Symm fun f g : Factor (List String) =>
        f.distribution.Disjoint g.distribution := ⟨fun _ _ hd _ ha hb => hd hb ha⟩
    exact absurd hvg (hapart.forall hf hg heq hvf)

theorem Stage.mentions_iff (h : F.Stage x E fs) {f : Factor (List String)} (hf : f ∈ fs)
    {y : String} (hy : y ∉ E) :
    f.mentions y ↔ ∃ v ∈ f.distribution, F.Mentions v y := by
  rw [Factor.mentions_iff, h.scope hf, h.parents hf]
  simp only [hy, not_false_eq_true, and_true]
  constructor
  · rintro (hv | ⟨v, hv, hp⟩)
    · exact ⟨y, hv, .inl rfl⟩
    · exact ⟨v, hv, .inr hp⟩
  · rintro ⟨v, hv, rfl | hp⟩
    · exact .inl hv
    · exact .inr ⟨v, hv, hp⟩

/-- Members of factors that mention the same variable are tied. -/
theorem Stage.tied_of_mentions (h : F.Stage x E fs) {f g : Factor (List String)} (hf : f ∈ fs)
    (hg : g ∈ fs) {y v w : String} (hy : y ∉ E) (hyx : y ≠ x) (hfy : f.mentions y)
    (hgy : g.mentions y) (hv : v ∈ f.distribution) (hw : w ∈ g.distribution) :
    ReflTransGen (F.Tied x) v w := by
  obtain ⟨a, ha, hay⟩ := (h.mentions_iff hf hy).1 hfy
  obtain ⟨b, hb, hby⟩ := (h.mentions_iff hg hy).1 hgy
  have hab : F.Tied x a b := ⟨h.vertices hf ha, h.vertices hg hb, y, hyx, hay, hby⟩
  exact (h.tied hf hv ha).trans (.head hab (h.tied hg hb hw))

section Step

variable {y : String}

/-- A factor that does not mention a variable stays what it is when the variable is eliminated. -/
theorem Stage.scope_of_other (h : F.Stage x E fs) {f : Factor (List String)} (hf : f ∈ fs)
    (hy : y ∉ E) (hfy : f.mentions y = false) (v : String) :
    v ∈ f.scope ↔ v ∈ f.distribution ∧ v ∉ y :: E := by
  rw [h.scope hf, List.mem_cons, not_or]
  refine and_congr_right fun hv => (and_iff_right ?_).symm
  rintro rfl
  rw [(h.mentions_iff hf hy).2 ⟨v, hv, .inl rfl⟩] at hfy
  cases hfy

theorem Stage.parents_of_other (h : F.Stage x E fs) {f : Factor (List String)} (hf : f ∈ fs)
    (hy : y ∉ E) (hfy : f.mentions y = false) (u : String) :
    u ∈ f.parents ↔ (∃ v ∈ f.distribution, u ∈ F.parents v) ∧ u ∉ y :: E := by
  rw [h.parents hf, List.mem_cons, not_or]
  refine and_congr_right fun ⟨v, hv, hu⟩ => (and_iff_right ?_).symm
  rintro rfl
  rw [(h.mentions_iff hf hy).2 ⟨v, hv, .inr hu⟩] at hfy
  cases hfy

theorem Stage.family_of_other (h : F.Stage x E fs) {f g : Factor (List String)} (hf : f ∈ fs)
    (hg : g ∈ fs) (hy : y ∉ E) (hfy : f.mentions y = false) {v c : String}
    (hv : v ∈ f.distribution) (hc : c ∈ g.distribution) (hp : v ∈ F.parents c)
    (hE : v ∈ y :: E) : f = g := by
  rcases List.mem_cons.1 hE with rfl | hE
  · rw [(h.mentions_iff hf hy).2 ⟨v, hv, .inl rfl⟩] at hfy
    cases hfy
  · exact h.family hf hg hv hc hp hE

/-- Where no factor mentions a variable, nothing has to be done to eliminate it. -/
theorem Stage.skip (h : F.Stage x E fs) (hy : y ∉ E) (hfs : ∀ f ∈ fs, f.mentions y = false) :
    F.Stage x (y :: E) fs where
  scope f hf := h.scope_of_other hf hy (hfs f hf)
  parents f hf := h.parents_of_other hf hy (hfs f hf)
  nonempty := h.nonempty
  nodup := h.nodup
  vertices := h.vertices
  leading := h.leading
  family f _ _ _ hf hg hv hc hp hE := h.family_of_other hf hg hy (hfs f hf) hv hc hp hE
  tied := h.tied

section Merge

variable {p : Factor (List String)}

theorem Stage.merge_scope (h : F.Stage x E fs) (hp : Factor.Merges fs y p) (v : String) :
    v ∈ p.scope ↔ v ∈ p.distribution ∧ v ∉ y :: E := by
  rw [hp.scope, hp.mem_members, List.mem_cons, not_or]
  constructor
  · rintro ⟨hvy, g, hg, hgy, hv⟩
    obtain ⟨hv, hvE⟩ := (h.scope hg v).1 hv
    exact ⟨⟨g, hg, hgy, hv⟩, hvy, hvE⟩
  · rintro ⟨⟨g, hg, hgy, hv⟩, hvy, hvE⟩
    exact ⟨hvy, g, hg, hgy, (h.scope hg v).2 ⟨hv, hvE⟩⟩

theorem Stage.merge_parents (h : F.Stage x E fs) (hp : Factor.Merges fs y p) (u : String) :
    u ∈ p.parents ↔ (∃ v ∈ p.distribution, u ∈ F.parents v) ∧ u ∉ y :: E := by
  rw [hp.parents, List.mem_cons, not_or]
  constructor
  · rintro ⟨huy, g, hg, hgy, hu⟩
    obtain ⟨⟨v, hv, huv⟩, huE⟩ := (h.parents hg u).1 hu
    exact ⟨⟨v, (hp.mem_members v).2 ⟨g, hg, hgy, hv⟩, huv⟩, huy, huE⟩
  · rintro ⟨⟨v, hv, huv⟩, huy, huE⟩
    obtain ⟨g, hg, hgy, hv⟩ := (hp.mem_members v).1 hv
    exact ⟨huy, g, hg, hgy, (h.parents hg u).2 ⟨⟨v, hv, huv⟩, huE⟩⟩

/-- The members of the factors are those of before, less those of a product that is dropped. -/
theorem Stage.merge_nodup (h : F.Stage x E fs) (hp : Factor.Merges fs y p) :
    ((fs.filter (!·.mentions y) ++ if p.scope = [] then [] else [p]).map
      (·.distribution)).flatten.Nodup := by
  have hperm : (((fs.filter (!·.mentions y)).map (·.distribution)).flatten ++ p.distribution).Perm
      (fs.map (·.distribution)).flatten := by
    rw [hp.distribution, ← List.flatten_append, ← List.map_append]
    refine ((List.perm_append_comm.trans ?_).map _).flatten
    exact List.filter_append_perm (fun f : Factor (List String) => f.mentions y) fs
  have hall := hperm.nodup_iff.2 h.nodup
  split
  · rw [List.append_nil]
    exact (List.nodup_append.1 hall).1
  · simpa using hall

/-- A factor with a member that leads to a vertex is not dropped before this is eliminated. -/
theorem Stage.mem_of_leads (h : F.Stage x E fs) (hy : y ∉ E) (hp : Factor.Merges fs y p)
    (hgone : ∀ v ∈ p.distribution, v ∈ y :: E) {v : String} (hv : v ∈ p.distribution)
    (hleads : F.Leads v x) : x ∈ p.distribution := by
  induction hleads using ReflTransGen.head_induction_on with
  | refl => exact hv
  | @head v c hvc hcx ih =>
    -- the child is in a factor, and this is merged with the one of its parent at the latest now
    obtain ⟨g, hg, hcg⟩ := h.leading hvc.1 hcx
    refine ih ((hp.mem_members c).2 ?_)
    rcases List.mem_cons.1 (hgone v hv) with rfl | hE
    · exact ⟨g, hg, (h.mentions_iff hg hy).2 ⟨c, hcg, .inr hvc.2.2⟩, hcg⟩
    · obtain ⟨f, hf, hfy, hvf⟩ := (hp.mem_members v).1 hv
      obtain rfl := h.family hf hg hvf hcg hvc.2.2 hE
      exact ⟨f, hf, hfy, hcg⟩

theorem Stage.merge_leading (h : F.Stage x E fs) (hp : Factor.Merges fs y p) (hy : y ∉ E)
    (hyx : y ≠ x) (hx : x ∉ E) {v : String} (hv : v ∈ p.distribution) (hleads : F.Leads v x) :
    p.scope ≠ [] := by
  intro hnil
  have hgone : ∀ v ∈ p.distribution, v ∈ y :: E := by
    intro v hv
    by_cases hvE : v ∈ y :: E
    · exact hvE
    · have hscope := (h.merge_scope hp v).2 ⟨hv, hvE⟩
      rw [hnil] at hscope
      cases hscope
  rcases List.mem_cons.1 (hgone x (h.mem_of_leads hy hp hgone hv hleads)) with rfl | hxE
  · exact hyx rfl
  · exact hx hxE

/-- A factor that does not mention a variable has no members in common with the family of a vertex
whose factor does. -/
theorem Stage.merge_family (h : F.Stage x E fs) (hp : Factor.Merges fs y p) (hy : y ∉ E)
    {g : Factor (List String)} (hg : g ∈ fs) (hgy : g.mentions y = false) {v c : String}
    (hvc : v ∈ p.distribution ∧ c ∈ g.distribution ∨ v ∈ g.distribution ∧ c ∈ p.distribution)
    (hparent : v ∈ F.parents c) (hE : v ∈ y :: E) : False := by
  rcases hvc with ⟨hv, hc⟩ | ⟨hv, hc⟩
  · obtain ⟨f, hf, hfy, hv⟩ := (hp.mem_members v).1 hv
    rcases List.mem_cons.1 hE with rfl | hE
    · rw [(h.mentions_iff hg hy).2 ⟨c, hc, .inr hparent⟩] at hgy
      cases hgy
    · obtain rfl := h.family hf hg hv hc hparent hE
      rw [hfy] at hgy
      cases hgy
  · obtain ⟨f, hf, hfy, hc⟩ := (hp.mem_members c).1 hc
    obtain rfl := h.family_of_other hg hf hy hgy hv hc hparent hE
    rw [hfy] at hgy
    cases hgy

/-- The product of the factors that mention a variable comes into their place, unless it has no
variable left. -/
theorem Stage.merge (h : F.Stage x E fs) (hy : y ∉ E) (hyx : y ≠ x) (hx : x ∉ E)
    (hp : Factor.Merges fs y p) :
    F.Stage x (y :: E) (fs.filter (!·.mentions y) ++ if p.scope = [] then [] else [p]) := by
  have hmem : ∀ f, f ∈ fs.filter (!·.mentions y) ++ (if p.scope = [] then [] else [p]) ↔
      (f ∈ fs ∧ f.mentions y = false) ∨ (p.scope ≠ [] ∧ f = p) := by
    intro f
    rw [List.mem_append, List.mem_filter, Bool.not_eq_true']
    refine or_congr_right ?_
    split <;> simp_all
  refine ⟨fun f hf => ?_, fun f hf => ?_, fun f hf => ?_, h.merge_nodup hp, fun f hf => ?_,
    fun v hv hleads => ?_, fun f g v c hf hg hv hc hparent hE => ?_, fun f v w hf hv hw => ?_⟩
  · rcases (hmem f).1 hf with ⟨hf, hfy⟩ | ⟨-, rfl⟩
    · exact h.scope_of_other hf hy hfy
    · exact h.merge_scope hp
  · rcases (hmem f).1 hf with ⟨hf, hfy⟩ | ⟨-, rfl⟩
    · exact h.parents_of_other hf hy hfy
    · exact h.merge_parents hp
  · rcases (hmem f).1 hf with ⟨hf, -⟩ | ⟨hne, rfl⟩
    · exact h.nonempty hf
    · exact hne
  · rcases (hmem f).1 hf with ⟨hf, -⟩ | ⟨-, rfl⟩
    · exact h.vertices hf
    · intro v hv
      obtain ⟨g, hg, -, hv⟩ := (hp.mem_members v).1 hv
      exact h.vertices hg hv
  · obtain ⟨g, hg, hvg⟩ := h.leading hv hleads
    cases hgy : g.mentions y with
    | false => exact ⟨g, (hmem g).2 (.inl ⟨hg, hgy⟩), hvg⟩
    | true =>
      have hvp := (hp.mem_members v).2 ⟨g, hg, hgy, hvg⟩
      exact ⟨p, (hmem p).2 (.inr ⟨h.merge_leading hp hy hyx hx hvp hleads, rfl⟩), hvp⟩
  · rcases (hmem f).1 hf with ⟨hfo, hfy⟩ | ⟨-, hfp⟩
    · rcases (hmem g).1 hg with ⟨hgo, -⟩ | ⟨-, hgp⟩
      · exact h.family_of_other hfo hgo hy hfy hv hc hparent hE
      · exact (h.merge_family hp hy hfo hfy (.inr ⟨hv, hgp ▸ hc⟩) hparent hE).elim
    · rcases (hmem g).1 hg with ⟨hgo, hgy⟩ | ⟨-, hgp⟩
      · exact (h.merge_family hp hy hgo hgy (.inl ⟨hfp ▸ hv, hc⟩) hparent hE).elim
      · exact hfp.trans hgp.symm
  · rcases (hmem f).1 hf with ⟨hf, -⟩ | ⟨-, rfl⟩
    · exact h.tied hf hv hw
    · obtain ⟨f, hf, hfy, hv⟩ := (hp.mem_members v).1 hv
      obtain ⟨g, hg, hgy, hw⟩ := (hp.mem_members w).1 hw
      exact h.tied_of_mentions hf hg hy hyx hfy hgy hv hw

end Merge

/-- Elimination of a variable leads from one stage to the next. -/
theorem Stage.eliminate (h : F.Stage x E fs) (hy : y ∉ E) (hyx : y ≠ x) (hx : x ∉ E) :
    ∃ fs', Factor.eliminate memberRules fs y = .ok fs' ∧ F.Stage x (y :: E) fs' := by
  obtain ⟨fs', hfs', ⟨hnone, rfl⟩ | ⟨p, hp, rfl⟩⟩ := Factor.eliminate_members fs y
  · refine ⟨_, hfs', h.skip hy fun f hf => ?_⟩
    simpa using List.filter_eq_nil_iff.1 hnone f hf
  · exact ⟨_, hfs', h.merge hy hyx hx hp⟩

/-- So does elimination of several variables. -/
theorem Stage.eliminateAll : ∀ {ys E : List String} {fs : List (Factor (List String))},
    F.Stage x E fs → ys.Nodup → (∀ y ∈ ys, y ∉ E ∧ y ≠ x) → x ∉ E →
      ∃ fs', Factor.eliminateAll memberRules fs ys = .ok fs' ∧ F.Stage x (ys.reverse ++ E) fs'
  | [], E, fs, h, _, _, _ => ⟨fs, rfl, h⟩
  | y :: ys, E, fs, h, hnodup, hys, hx => by
    obtain ⟨hyE, hyx⟩ := hys y (List.mem_cons_self ..)
    obtain ⟨hy, hnodup⟩ := List.nodup_cons.1 hnodup
    obtain ⟨fs₁, hfs₁, h₁⟩ := h.eliminate hyE hyx hx
    have hrest : ∀ z ∈ ys, z ∉ y :: E ∧ z ≠ x := by
      intro z hz
      obtain ⟨hzE, hzx⟩ := hys z (List.mem_cons_of_mem _ hz)
      exact ⟨List.not_mem_cons_of_ne_of_not_mem (fun h => hy (h ▸ hz)) hzE, hzx⟩
    obtain ⟨fs', hfs', h'⟩ :=
      h₁.eliminateAll hnodup hrest (List.not_mem_cons_of_ne_of_not_mem hyx.symm hx)
    refine ⟨fs', bind_eq_ok.2 ⟨fs₁, hfs₁, hfs'⟩, ?_⟩
    rw [List.reverse_cons, List.append_assoc]
    exact h'

end Step

/-- When all variables but one have been eliminated, its factor is the only one; the vertices that
lead to it are members of it, and its other members are tied to it. -/
theorem Stage.settled (h : F.Stage x E fs) (hE : ∀ v ∈ F.vertices, v ∉ E → v = x) :
    (x ∉ F.vertices → fs = []) ∧ (x ∈ F.vertices → ∃ f, fs = [f] ∧ f.distribution.Nodup ∧
      f.distribution ⊆ F.vertices ∧ (∀ v ∈ F.vertices, F.Leads v x → v ∈ f.distribution) ∧
      ∀ v ∈ f.distribution, ReflTransGen (F.Tied x) x v) := by
  have hmem : ∀ f ∈ fs, x ∈ f.distribution := by
    intro f hf
    obtain ⟨v, hv⟩ := List.exists_mem_of_ne_nil _ (h.nonempty hf)
    obtain ⟨hv, hvE⟩ := (h.scope hf v).1 hv
    exact hE v (h.vertices hf hv) hvE ▸ hv
  refine ⟨fun hx => ?_, fun hx => ?_⟩
  · refine List.eq_nil_iff_forall_not_mem.2 fun f hf => hx (h.vertices hf (hmem f hf))
  · obtain ⟨f, hf, -⟩ := h.leading hx .refl
    have hfs : fs = [f] := by
      cases fs with
      | nil => cases hf
      | cons g gs =>
        have hnil : gs = [] := List.eq_nil_iff_forall_not_mem.2 fun k hk =>
          (List.pairwise_cons.1 (List.pairwise_map.1 (List.nodup_flatten.1 h.nodup).2)).1 k hk
            (hmem g (List.mem_cons_self ..)) (hmem k (List.mem_cons_of_mem _ hk))
        rw [hnil, List.mem_singleton] at hf
        rw [hnil, hf]
    refine ⟨f, hfs, ?_, h.vertices hf, fun v hv hleads => ?_, fun v hv => ?_⟩
    · exact (List.nodup_flatten.1 h.nodup).1 _ (List.mem_map_of_mem hf)
    · obtain ⟨g, hg, hvg⟩ := h.leading hv hleads
      exact h.eq_of_mem hg hf (hmem g hg) (hmem f hf) ▸ hvg
    · exact h.tied hf (hmem f hf) hv

/-! ## Orders that make a difference -/

section Orders

variable {f : Factor (List String)} {u v w y : String}

theorem mentions_single : (⟨[v], [v], F.parents v⟩ : Factor (List String)).mentions u = true ↔
    F.Mentions v u := by
  rw [Factor.mentions_iff, List.mem_singleton, Mentions]

/-- What is in a factor was in one before. -/
theorem exists_mem_of_eliminate (h : Factor.eliminate memberRules fs y = .ok fs') (hf : f ∈ fs')
    (hv : v ∈ f.distribution) : ∃ g ∈ fs, v ∈ g.distribution := by
  rcases Factor.mem_or_merges h hf with ⟨hf, -⟩ | hp
  · exact ⟨f, hf, hv⟩
  · obtain ⟨g, hg, -, hvg⟩ := (hp.mem_members v).1 hv
    exact ⟨g, hg, hvg⟩

theorem exists_mem_of_eliminateAll : ∀ {ys : List String} {fs : List (Factor (List String))},
    Factor.eliminateAll memberRules fs ys = .ok fs' → f ∈ fs' → v ∈ f.distribution →
      ∃ g ∈ fs, v ∈ g.distribution
  | [], _, h, hf, hv => by
    cases h
    exact ⟨f, hf, hv⟩
  | y :: ys, fs, h, hf, hv => by
    obtain ⟨fs₁, h₁, h⟩ := bind_eq_ok.1 h
    obtain ⟨g, hg, hvg⟩ := exists_mem_of_eliminateAll h hf hv
    exact exists_mem_of_eliminate h₁ hg hvg

/-- Whatever factor has one vertex has another one too. -/
def Together (v w : String) (fs : List (Factor (List String))) : Prop :=
  ∀ f ∈ fs, v ∈ f.distribution → w ∈ f.distribution

/-- Vertices that are in the same factor are never parted. -/
theorem Together.eliminate (h : Together v w fs)
    (hfs' : Factor.eliminate memberRules fs y = .ok fs') : Together v w fs' := by
  intro f hf hv
  rcases Factor.mem_or_merges hfs' hf with ⟨hf, -⟩ | hp
  · exact h f hf hv
  · obtain ⟨g, hg, hgy, hvg⟩ := (hp.mem_members v).1 hv
    exact (hp.mem_members w).2 ⟨g, hg, hgy, h g hg hvg⟩

theorem Together.eliminateAll : ∀ {ys : List String} {fs : List (Factor (List String))},
    Together v w fs → Factor.eliminateAll memberRules fs ys = .ok fs' → Together v w fs'
  | [], _, h, hfs' => by
    cases hfs'
    exact h
  | y :: ys, fs, h, hfs' => by
    obtain ⟨fs₁, h₁, hfs'⟩ := bind_eq_ok.1 hfs'
    exact (h.eliminate h₁).eliminateAll hfs'

/-- Vertices whose factors mention a variable are in the same factor once it is eliminated. -/
theorem together_of_mentions (hv : F.Mentions v u) (hwF : w ∈ F.vertices) (hw : F.Mentions w u)
    (h : Factor.eliminate memberRules F.factors u = .ok fs) : Together v w fs := by
  intro f hf hvf
  rcases Factor.mem_or_merges h hf with ⟨hf, hfu⟩ | hp
  · obtain ⟨z, -, rfl⟩ := mem_factors.1 hf
    obtain rfl := List.mem_singleton.1 hvf
    rw [mentions_single.2 hv] at hfu
    cases hfu
  · exact (hp.mem_members w).2
      ⟨_, mem_factors.2 ⟨w, hwF, rfl⟩, mentions_single.2 hw, List.mem_singleton_self w⟩

/-- Two vertices whose factors mention the first variable stay together to the end. -/
theorem mem_of_first (hv : F.Mentions v u) (hwF : w ∈ F.vertices) (hw : F.Mentions w u)
    {ys : List String} (h : Factor.eliminateAll memberRules F.factors (u :: ys) = .ok fs)
    (hf : f ∈ fs) (hvf : v ∈ f.distribution) : w ∈ f.distribution := by
  obtain ⟨fs₁, h₁, h⟩ := bind_eq_ok.1 h
  exact (together_of_mentions hv hwF hw h₁).eliminateAll h f hf hvf

/-- The same vertices without one. -/
def without (F : Families) (y : String) : Families := ⟨F.vertices.filter (· ≠ y), F.parents⟩

/-- Vertices in an order in which each comes after all those that it is a parent of. -/
def ChildrenFirst (F : Families) : List String → Prop
  | [] => True
  | y :: ys =>
    y ∈ F.vertices ∧ (∀ c ∈ F.vertices, y ∉ F.parents c) ∧ (F.without y).ChildrenFirst ys

theorem childrenFirst_of_pairwise : ∀ {ys : List String} {F : Families}, ys.Nodup →
    ys ⊆ F.vertices → (∀ y ∈ ys, ∀ c ∈ F.vertices, y ∈ F.parents c → c ∈ ys ∧ c ≠ y) →
      ys.Pairwise (fun a b => a ∉ F.parents b) → F.ChildrenFirst ys
  | [], _, _, _, _, _ => trivial
  | y :: ys, F, hnodup, hys, hchildren, hpairwise => by
    obtain ⟨hy, hnodup⟩ := List.nodup_cons.1 hnodup
    obtain ⟨hlast, hpairwise⟩ := List.pairwise_cons.1 hpairwise
    have hrest : ys ⊆ (F.without y).vertices := fun z hz =>
      List.mem_filter.2 ⟨hys (List.mem_cons_of_mem _ hz), by
        rw [decide_eq_true_iff]
        rintro rfl
        exact hy hz⟩
    refine ⟨hys (List.mem_cons_self ..), fun c hc hyc => ?_,
      childrenFirst_of_pairwise hnodup hrest (fun z hz c hc hzc => ?_) hpairwise⟩
    · obtain ⟨hmem, hne⟩ := hchildren y (List.mem_cons_self ..) c hc hyc
      exact hlast c ((List.mem_cons.1 hmem).resolve_left hne) hyc
    · obtain ⟨hc, hcy⟩ := List.mem_filter.1 hc
      obtain ⟨hmem, hne⟩ := hchildren z (List.mem_cons_of_mem _ hz) c hc hzc
      exact ⟨(List.mem_cons.1 hmem).resolve_left (decide_eq_true_iff.1 hcy), hne⟩

/-- To eliminate a vertex that is no parent drops its factor and leaves the others alone. -/
theorem eliminate_childless (hy : y ∈ F.vertices) (h : ∀ c ∈ F.vertices, y ∉ F.parents c) :
    Factor.eliminate memberRules F.factors y = .ok (F.without y).factors := by
  -- only the factor of the vertex itself mentions it
  have only {v : String} (hv : v ∈ F.vertices) : F.Mentions v y ↔ v = y :=
    ⟨fun hm => (hm.resolve_right (h v hv)).symm, fun e => .inl e.symm⟩
  obtain ⟨fs', hfs', ⟨hnone, -⟩ | ⟨p, hp, rfl⟩⟩ := Factor.eliminate_members F.factors y
  · have hself := List.filter_eq_nil_iff.1 hnone _ (mem_factors.2 ⟨y, hy, rfl⟩)
    exact absurd (mentions_single.2 ((only hy).2 rfl)) hself
  · have hscope : p.scope = [] := by
      refine List.eq_nil_iff_forall_not_mem.2 fun v hv => ?_
      obtain ⟨hvy, g, hg, hgy, hv⟩ := (hp.scope v).1 hv
      obtain ⟨z, hz, rfl⟩ := mem_factors.1 hg
      obtain rfl := List.mem_singleton.1 hv
      exact hvy ((only hz).1 (mentions_single.1 hgy))
    rw [hfs', if_pos hscope, List.append_nil, factors, List.filter_map, factors, without]
    congr 2
    refine List.filter_congr fun v hv => ?_
    rw [Function.comp_apply, Bool.eq_iff_iff, Bool.not_eq_true', ← Bool.not_eq_true,
      mentions_single, only hv, decide_eq_true_iff]

theorem eliminateAll_childrenFirst : ∀ {ys : List String} {F : Families}, F.ChildrenFirst ys →
    Factor.eliminateAll memberRules F.factors ys = .ok (ys.foldl without F).factors
  | [], _, _ => rfl
  | _ :: _, _, ⟨hy, hchildless, hys⟩ =>
    bind_eq_ok.2 ⟨_, eliminate_childless hy hchildless, eliminateAll_childrenFirst hys⟩

theorem mem_foldl_without : ∀ {ys : List String} {F : Families},
    v ∈ (ys.foldl without F).vertices ↔ v ∈ F.vertices ∧ v ∉ ys
  | [], _ => by simp
  | y :: ys, F => by
    rw [List.foldl_cons, mem_foldl_without, without, List.mem_filter, List.mem_cons, not_or,
      and_assoc, decide_eq_true_iff]

/-- Vertices that are eliminated before all others, children first, are dropped. -/
theorem not_mem_of_childrenFirst {ys zs : List String} (hys : F.ChildrenFirst ys)
    (h : Factor.eliminateAll memberRules F.factors (ys ++ zs) = .ok fs) (hf : f ∈ fs)
    (hv : v ∈ f.distribution) : v ∉ ys := by
  rw [Factor.eliminateAll, List.foldlM_append] at h
  obtain ⟨fs₁, h₁, h⟩ := bind_eq_ok.1 h
  cases (eliminateAll_childrenFirst hys).symm.trans h₁
  obtain ⟨g, hg, hvg⟩ := exists_mem_of_eliminateAll h hf hv
  obtain ⟨z, hz, rfl⟩ := mem_factors.1 hg
  obtain rfl := List.mem_singleton.1 hvg
  exact (mem_foldl_without.1 hz).2

end Orders

end Families

end PlateModel
