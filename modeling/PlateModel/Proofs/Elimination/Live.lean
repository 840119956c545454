import Mathlib.Data.List.Nodup
import PlateModel.Proofs.Elimination.Answers
import PlateModel.Proofs.Elimination.Origins

/-!
# Live factors

While variables are eliminated, every factor is kept under its first variable, and every vertex that
is not eliminated yet is a variable of one factor only. So a product is kept under a name that is
free, no factor is lost but one without variables, and no factor of a vertex has a say twice.

* `Factors.Stored`: how factors are kept.
* `Factors.Eliminates`: what elimination of a variable does to the table of the factors.
* `Factors.Live`: what holds of the factors of a query while variables are eliminated.
* `FactorGraph.Named.live`: from the start of a query to any point of its elimination.
-/

namespace PlateModel

variable {δ ν ρ : Type} {rules : FactorRules δ ν ρ}

namespace Factor

/-- The variables of a product come one after the other, if no two factors share one. -/
theorem scope_product : ∀ {fs : List (Factor δ)} {f p : Factor δ}, product rules f fs = .ok p →
    ((f :: fs).flatMap (·.scope)).Nodup → p.scope = (f :: fs).flatMap (·.scope)
  | [], f, p, h, _ => by
    cases h
    simp
  | g :: fs, f, p, h, hnodup => by
    obtain ⟨q, hq, h⟩ := bind_eq_ok.1 h
    obtain ⟨d, -, hq⟩ := bind_eq_ok.1 hq
    cases hq
    rw [List.flatMap_cons, List.flatMap_cons, ← List.append_assoc] at hnodup ⊢
    have hfirst : (f.scope ++ g.scope).eraseDups = f.scope ++ g.scope :=
      eraseDups_of_nodup (List.nodup_append.1 hnodup).1
    rw [scope_product h (by rw [List.flatMap_cons, hfirst]; exact hnodup), List.flatMap_cons,
      hfirst]

/-- The parents of a product are those of its factors. -/
theorem mem_parents_product {u : String} : ∀ {fs : List (Factor δ)} {f p : Factor δ},
    product rules f fs = .ok p → (u ∈ p.parents ↔ ∃ g ∈ f :: fs, u ∈ g.parents)
  | [], f, p, h => by
    cases h
    simp
  | g :: fs, f, p, h => by
    obtain ⟨q, hq, h⟩ := bind_eq_ok.1 h
    obtain ⟨d, -, hq⟩ := bind_eq_ok.1 hq
    cases hq
    rw [mem_parents_product h]
    simp only [List.mem_cons, exists_eq_or_imp, List.mem_eraseDups, List.mem_append, or_assoc]

end Factor

namespace Factors

/-! ## How factors are kept -/

/-- Every factor is kept under its first variable, and no variable is there twice. -/
structure Stored (fs : Factors δ) : Prop where
  key : ∀ e ∈ fs.entries, e.2.scope.head? = some e.1
  scopes : (fs.values.flatMap (·.scope)).Nodup

/-- Elimination of a variable takes one table to another: it leaves the factors as they are if none
mentions the variable. Otherwise it replaces those that do by their product without the variable,
kept under a name that no other factor has, or by nothing if no variable is left. -/
inductive Eliminates (rules : FactorRules δ ν ρ) (fs : Factors δ) (y : String) : Factors δ → Prop
  | skip : (∀ f ∈ fs.values, f.mentions y = false) → Eliminates rules fs y fs
  | drop {f : Factor δ} {rest : List (Factor δ)} {p : Factor δ} :
    fs.values.filter (·.mentions y) = f :: rest → Factor.product rules f rest = .ok p →
      (p.without y).scope = [] → Eliminates rules fs y (fs.others y)
  | keep {f : Factor δ} {rest : List (Factor δ)} {p : Factor δ} {k : String} {fs' : Factors δ} :
    fs.values.filter (·.mentions y) = f :: rest → Factor.product rules f rest = .ok p →
      (p.without y).scope.head? = some k → k ∉ (fs.others y).keys →
      fs'.entries = (fs.others y).entries ++ [(k, p.without y)] → Eliminates rules fs y fs'

variable {fs fs' : Factors δ} {y : String}

theorem Stored.key_mem (h : fs.Stored) {e : String × Factor δ} (he : e ∈ fs.entries) :
    e.1 ∈ e.2.scope := List.mem_of_head? (h.key e he)

theorem firsts_sublist : ∀ {es : List (String × Factor δ)},
    (∀ e ∈ es, e.2.scope.head? = some e.1) →
      (es.map (·.1)).Sublist ((es.map (·.2)).flatMap (·.scope))
  | [], _ => .slnil
  | e :: es, h => by
    obtain ⟨hhead, hrest⟩ := List.forall_mem_cons.1 h
    rw [List.map_cons, List.map_cons, List.flatMap_cons]
    exact (List.singleton_sublist.2 (List.mem_of_head? hhead)).append (firsts_sublist hrest)

theorem Stored.keys_sublist (h : fs.Stored) :
    fs.keys.Sublist (fs.values.flatMap (·.scope)) := firsts_sublist h.key

theorem Stored.keyed (h : fs.Stored) : fs.Keyed where
  nodup := h.scopes.sublist h.keys_sublist
  key k f hf := h.key_mem (Assoc.mem_of_get? hf)
  apart j k f g v hf hg hvf hvg := by
    have hscopes : (fs.entries.flatMap (·.2.scope)).Nodup := by
      simpa [Assoc.values, List.flatMap_map] using h.scopes
    have hapart := (List.nodup_flatMap.1 hscopes).2
    have hsymm : Std.Symm fun a b : String × Factor δ => a.2.scope.Disjoint b.2.scope :=
      ⟨fun _ _ hd _ ha hb => hd hb ha⟩
    by_contra hne
    have hentries : (j, f) ≠ (k, g) := fun heq => hne (Prod.mk.inj heq).1
    exact hapart.forall (Assoc.mem_of_get? hf) (Assoc.mem_of_get? hg) hentries hvf hvg

/-! ## One variable -/

theorem values_perm (fs : Factors δ) (y : String) :
    ((fs.others y).values ++ fs.values.filter (·.mentions y)).Perm fs.values := by
  rw [values_others]
  exact List.perm_append_comm.trans (List.filter_append_perm _ _)

/-- The variables of the factors that do not mention a variable, and of the product of those that
do, are those of all factors. -/
theorem Stored.scopes_perm (h : fs.Stored) {f p : Factor δ} {rest : List (Factor δ)}
    (hrelevant : fs.values.filter (·.mentions y) = f :: rest)
    (hp : Factor.product rules f rest = .ok p) :
    ((fs.others y).values.flatMap (·.scope) ++ p.scope).Perm (fs.values.flatMap (·.scope)) := by
  have hall := (values_perm fs y).flatMap_right (·.scope)
  rw [List.flatMap_append] at hall
  have hnodup := (List.nodup_append.1 (hall.nodup_iff.2 h.scopes)).2.1
  rw [hrelevant] at hall hnodup
  rwa [Factor.scope_product hp hnodup]

theorem Stored.others (h : fs.Stored) (y : String) : (fs.others y).Stored where
  key e he := h.key e (List.mem_of_mem_filter he)
  scopes := by
    have hall := (values_perm fs y).flatMap_right (·.scope)
    rw [List.flatMap_append] at hall
    exact (List.nodup_append.1 (hall.nodup_iff.2 h.scopes)).1

/-- What elimination of a variable makes of factors as they are kept. -/
theorem Stored.eliminates (h : fs.Stored) (hfs' : fs.eliminate rules y = .ok fs') :
    Eliminates rules fs y fs' := by
  have hvalues := values_relevant fs y
  rw [Factors.eliminate, ← Factors.relevant, erase_relevant h.keyed y, hvalues] at hfs'
  cases hrelevant : fs.values.filter (·.mentions y) with
  | nil =>
    rw [hrelevant] at hfs'
    cases hfs'
    refine .skip fun f hf => ?_
    simpa using List.filter_eq_nil_iff.1 hrelevant f hf
  | cons f rest =>
    rw [hrelevant] at hfs'
    obtain ⟨p, hp, hfs'⟩ := bind_eq_ok.1 hfs'
    dsimp only at hfs'
    cases hscope : (p.without y).scope with
    | nil =>
      rw [hscope] at hfs'
      cases hfs'
      exact .drop hrelevant hp hscope
    | cons k vs =>
      rw [hscope] at hfs'
      cases hfs'
      have hk : k ∈ p.scope := (List.mem_filter.1 (hscope ▸ List.mem_cons_self ..)).1
      have hnodup := (h.scopes_perm hrelevant hp).nodup_iff.2 h.scopes
      have hfresh : k ∉ (fs.others y).keys := fun hkeys =>
        (List.nodup_append.1 hnodup).2.2 k ((h.others y).keys_sublist.subset hkeys) k hk rfl
      exact .keep hrelevant hp (by rw [hscope]; rfl) hfresh (Assoc.entries_put_of_not_mem _ hfresh)

/-- What is left is kept in the same way. -/
theorem Eliminates.stored (h : Eliminates rules fs y fs') (hfs : fs.Stored) : fs'.Stored := by
  cases h with
  | skip => exact hfs
  | drop => exact hfs.others y
  | @keep f rest p k _ hrelevant hp hscope _ hentries =>
    refine ⟨fun e he => ?_, ?_⟩
    · rw [hentries] at he
      rcases List.mem_append.1 he with he | he
      · exact (hfs.others y).key e he
      · exact List.mem_singleton.1 he ▸ hscope
    · have hvalues : fs'.values = (fs.others y).values ++ [p.without y] := by
        rw [Assoc.values, hentries, List.map_append]
        rfl
      rw [hvalues, List.flatMap_append, List.flatMap_singleton]
      exact ((hfs.scopes_perm hrelevant hp).nodup_iff.2 hfs.scopes).sublist
        ((List.Sublist.refl _).append List.filter_sublist)

theorem eliminateAll_append : ∀ {xs ys : List String} {fs : Factors δ},
    fs.eliminateAll rules (xs ++ ys) =
      (fs.eliminateAll rules xs >>= fun fs => fs.eliminateAll rules ys)
  | [], _, _ => rfl
  | x :: xs, ys, fs => by
    rw [List.cons_append, Factors.eliminateAll, Factors.eliminateAll]
    cases fs.eliminate rules x with
    | error e => rfl
    | ok fs' => exact eliminateAll_append

/-! ## All variables -/

/-- What holds of the factors of a query when some variables have been eliminated. The names are
those of all vertices and those of the vertices with factors. -/
structure Live (names stochastic done : List String) (fs : Factors (δ × List String)) : Prop
    extends Stored fs where
  unmentioned : ∀ f ∈ fs.values, ∀ y ∈ done, f.mentions y = false
  /-- No factor of a vertex has a say twice. -/
  origins : (fs.values.flatMap (·.origins)).Nodup
  subset : fs.values.flatMap (·.origins) ⊆ stochastic
  scope_iff : ∀ f ∈ fs.values, ∀ v, v ∈ f.scope ↔ v ∈ f.origins ∧ v ∉ done
  remaining : ∀ v ∈ stochastic, v ∉ done → v ∈ fs.values.flatMap (·.scope)
  parents : ∀ f ∈ fs.values, f.parents ⊆ names

section Live

variable {names stochastic done : List String} {fs fs' : Factors (δ × List String)}
  {f p q : Factor (δ × List String)} {rest last : List (Factor (δ × List String))}

theorem mem_values_others : f ∈ (fs.others y).values ↔ f ∈ fs.values ∧ f.mentions y = false := by
  simp [values_others]

theorem mentions_append (hf : ∀ z ∈ done, f.mentions z = false) (hy : f.mentions y = false) :
    ∀ z ∈ done ++ [y], f.mentions z = false := by
  intro z hz
  rcases List.mem_append.1 hz with hz | hz
  · exact hf z hz
  · exact List.mem_singleton.1 hz ▸ hy

theorem Live.scope_of_other (h : Live names stochastic done fs) (hf : f ∈ fs.values)
    (hy : f.mentions y = false) (v : String) :
    v ∈ f.scope ↔ v ∈ f.origins ∧ v ∉ done ++ [y] := by
  rw [h.scope_iff f hf, List.mem_append, List.mem_singleton, not_or]
  refine and_congr_right fun hv => (and_iff_left_of_imp fun hdone => ?_).symm
  rintro rfl
  rw [Factor.mentions_iff.2 (.inl ((h.scope_iff f hf v).2 ⟨hv, hdone⟩))] at hy
  cases hy

theorem Live.skip (h : Live names stochastic done fs)
    (hfs : ∀ f ∈ fs.values, f.mentions y = false) :
    Live names stochastic (done ++ [y]) fs where
  toStored := h.toStored
  unmentioned f hf := mentions_append (h.unmentioned f hf) (hfs f hf)
  origins := h.origins
  subset := h.subset
  scope_iff f hf := h.scope_of_other hf (hfs f hf)
  remaining v hv hdone := h.remaining v hv fun hmem => hdone (List.mem_append_left _ hmem)
  parents := h.parents

/-- A factor is the product of the factors that mention a variable, without it. -/
structure Merged (fs : Factors (δ × List String)) (y : String) (q : Factor (δ × List String)) :
    Prop where
  scope : ∀ v, v ∈ q.scope ↔ v ≠ y ∧ ∃ g ∈ fs.values, g.mentions y ∧ v ∈ g.scope
  parents : ∀ u, u ∈ q.parents ↔ u ≠ y ∧ ∃ g ∈ fs.values, g.mentions y ∧ u ∈ g.parents
  origins : q.origins = (fs.values.filter (·.mentions y)).flatMap (·.origins)

theorem merged_without (hrelevant : fs.values.filter (·.mentions y) = f :: rest)
    (hp : Factor.product rules.traced f rest = .ok p) : Merged fs y (p.without y) := by
  have hmem {g : Factor (δ × List String)} : g ∈ f :: rest ↔ g ∈ fs.values ∧ g.mentions y := by
    rw [← hrelevant, List.mem_filter]
  refine ⟨fun v => ?_, fun u => ?_, ?_⟩
  · simp only [Factor.without, List.mem_filter, Factor.mem_scope_product hp, hmem, and_assoc,
      decide_eq_true_iff, ne_eq]
    exact and_comm
  · simp only [Factor.without, List.mem_filter, Factor.mem_parents_product hp, hmem, and_assoc,
      decide_eq_true_iff, ne_eq]
    exact and_comm
  · have horigins : (p.without y).origins = p.origins := rfl
    rw [hrelevant, horigins, Factor.origins_product hp]

theorem Merged.mentions (hq : Merged fs y q) {z : String} (hz : q.mentions z) :
    z ≠ y ∧ ∃ g ∈ fs.values, g.mentions z := by
  rcases Factor.mentions_iff.1 hz with hz | hz
  · obtain ⟨hzy, g, hg, -, hz⟩ := (hq.scope z).1 hz
    exact ⟨hzy, g, hg, Factor.mentions_iff.2 (.inl hz)⟩
  · obtain ⟨hzy, g, hg, -, hz⟩ := (hq.parents z).1 hz
    exact ⟨hzy, g, hg, Factor.mentions_iff.2 (.inr hz)⟩

theorem Merged.origins_perm (hq : Merged fs y q) :
    ((fs.others y).values.flatMap (·.origins) ++ q.origins).Perm
      (fs.values.flatMap (·.origins)) := by
  rw [hq.origins, ← List.flatMap_append]
  exact (values_perm fs y).flatMap_right _

theorem Live.unmentioned_of_merged (h : Live names stochastic done fs) (hq : Merged fs y q) :
    ∀ z ∈ done ++ [y], q.mentions z = false := by
  intro z hz
  refine Bool.eq_false_iff.2 fun hmentions => ?_
  obtain ⟨hzy, g, hg, hgz⟩ := hq.mentions hmentions
  have hdone : z ∈ done := by simpa [hzy] using hz
  rw [h.unmentioned g hg z hdone] at hgz
  cases hgz

theorem Live.scope_of_merged (h : Live names stochastic done fs) (hq : Merged fs y q) (v : String) :
    v ∈ q.scope ↔ v ∈ q.origins ∧ v ∉ done ++ [y] := by
  simp only [hq.scope, hq.origins, List.mem_append, List.mem_singleton, not_or, List.mem_flatMap,
    List.mem_filter]
  constructor
  · rintro ⟨hvy, g, hg, hgy, hv⟩
    obtain ⟨hv, hdone⟩ := (h.scope_iff g hg v).1 hv
    exact ⟨⟨g, ⟨hg, hgy⟩, hv⟩, hdone, hvy⟩
  · rintro ⟨⟨g, ⟨hg, hgy⟩, hv⟩, hdone, hvy⟩
    exact ⟨hvy, g, hg, hgy, (h.scope_iff g hg v).2 ⟨hv, hdone⟩⟩

/-- The factors that mention a variable are replaced by their product without it, or by nothing if
no variable is left. -/
theorem Live.merge (h : Live names stochastic done fs) (hq : Merged fs y q)
    (hlast : last = [q] ∨ last = [] ∧ q.scope = [])
    (hvalues : fs'.values = (fs.others y).values ++ last) (hfs' : fs'.Stored) :
    Live names stochastic (done ++ [y]) fs' := by
  have hcases {g : Factor (δ × List String)} (hg : g ∈ fs'.values) :
      (g ∈ fs.values ∧ g.mentions y = false) ∨ g = q := by
    rw [hvalues] at hg
    refine (List.mem_append.1 hg).imp mem_values_others.1 fun hg => ?_
    rcases hlast with rfl | ⟨rfl, -⟩
    · exact List.mem_singleton.1 hg
    · cases hg
  have horigins : (fs'.values.flatMap (·.origins)).Sublist
      ((fs.others y).values.flatMap (·.origins) ++ q.origins) := by
    rw [hvalues, List.flatMap_append]
    refine (List.Sublist.refl _).append ?_
    rcases hlast with rfl | ⟨rfl, -⟩
    · simp
    · exact List.nil_sublist _
  refine ⟨hfs', fun g hg => ?_, ?_, fun v hv => ?_, fun g hg => ?_, fun v hv hdone => ?_,
    fun g hg u hu => ?_⟩
  · rcases hcases hg with ⟨hg, hgy⟩ | rfl
    · exact mentions_append (h.unmentioned g hg) hgy
    · exact h.unmentioned_of_merged hq
  · exact (hq.origins_perm.nodup_iff.2 h.origins).sublist horigins
  · exact h.subset (hq.origins_perm.subset (horigins.subset hv))
  · rcases hcases hg with ⟨hg, hgy⟩ | rfl
    · exact h.scope_of_other hg hgy
    · exact h.scope_of_merged hq
  · rw [List.mem_append, List.mem_singleton, not_or] at hdone
    obtain ⟨g, hg, hvg⟩ := List.mem_flatMap.1 (h.remaining v hv hdone.1)
    rw [hvalues, List.mem_flatMap]
    cases hgy : g.mentions y with
    | false => exact ⟨g, List.mem_append_left _ (mem_values_others.2 ⟨hg, hgy⟩), hvg⟩
    | true =>
      -- a variable that is left keeps the product from being dropped
      have hvq := (hq.scope v).2 ⟨hdone.2, g, hg, hgy, hvg⟩
      rcases hlast with rfl | ⟨-, hempty⟩
      · exact ⟨q, List.mem_append_right _ (List.mem_singleton_self q), hvq⟩
      · rw [hempty] at hvq
        cases hvq
  · rcases hcases hg with ⟨hg, -⟩ | rfl
    · exact h.parents g hg hu
    · obtain ⟨-, g, hg, -, hu⟩ := (hq.parents u).1 hu
      exact h.parents g hg hu

/-- Elimination of one more variable keeps what holds. -/
theorem Live.eliminate (h : Live names stochastic done fs)
    (hfs' : fs.eliminate rules.traced y = .ok fs') :
    Live names stochastic (done ++ [y]) fs' := by
  have heliminates := h.toStored.eliminates hfs'
  have hstored := heliminates.stored h.toStored
  cases heliminates with
  | skip hfs => exact h.skip hfs
  | drop hrelevant hp hscope =>
    exact h.merge (merged_without hrelevant hp) (.inr ⟨rfl, hscope⟩) (List.append_nil _).symm
      hstored
  | keep hrelevant hp hscope _ hentries =>
    refine h.merge (merged_without hrelevant hp) (.inl rfl) ?_ hstored
    rw [Assoc.values, hentries, List.map_append]
    rfl

theorem Stored.plain (h : fs.Stored) : fs.plain.Stored where
  key e he := by
    obtain ⟨d, hd, rfl⟩ := List.mem_map.1 he
    exact h.key d hd
  scopes := by
    rw [plain_values, List.flatMap_map]
    exact h.scopes

/-- Elimination of further variables, one after the other, keeps what holds. -/
theorem Live.eliminateAll : ∀ {ys done : List String} {fs fs' : Factors (δ × List String)},
    Live names stochastic done fs → fs.eliminateAll rules.traced ys = .ok fs' →
      Live names stochastic (done ++ ys) fs'
  | [], _, _, _, h, hfs' => by
    cases hfs'
    rwa [List.append_nil]
  | y :: ys, _, _, _, h, hfs' => by
    obtain ⟨fs₁, hfs₁, hfs'⟩ := bind_eq_ok.1 hfs'
    simpa using Live.eliminateAll (h.eliminate hfs₁) hfs'

/-- The variables of the factors are the vertices with factors that are not eliminated. -/
theorem Live.scopes_perm (h : Live names stochastic done fs) (hstochastic : stochastic.Nodup) :
    (fs.values.flatMap (·.scope)).Perm (stochastic.filter fun v => v ∉ done) := by
  refine (List.perm_ext_iff_of_nodup h.scopes (hstochastic.filter _)).2 fun v => ?_
  rw [List.mem_filter, decide_eq_true_iff]
  constructor
  · intro hv
    obtain ⟨f, hf, hv⟩ := List.mem_flatMap.1 hv
    obtain ⟨hv, hdone⟩ := (h.scope_iff f hf v).1 hv
    exact ⟨h.subset (List.mem_flatMap.2 ⟨f, hf, hv⟩), hdone⟩
  · exact fun ⟨hv, hdone⟩ => h.remaining v hv hdone

/-- What is mentioned is a vertex that is not eliminated. -/
theorem Live.of_mentions (h : Live names stochastic done fs) (hnames : stochastic ⊆ names)
    (hf : f ∈ fs.values) {u : String} (hu : f.mentions u) : u ∈ names ∧ u ∉ done := by
  refine ⟨?_, fun hdone => ?_⟩
  · rcases Factor.mentions_iff.1 hu with hu | hu
    · exact hnames (h.subset (List.mem_flatMap.2 ⟨f, hf, ((h.scope_iff f hf u).1 hu).1⟩))
    · exact h.parents f hf hu
  · rw [h.unmentioned f hf u hdone] at hu
    cases hu

/-! ## The start -/

/-- Every vertex with a factor has the one that comes from it, over itself. -/
structure Original (names stochastic : List String) (fs : Factors (δ × List String)) : Prop where
  keys : fs.keys = stochastic
  scope : ∀ {x f}, fs.get? x = some f → f.scope = [x]
  origins : ∀ {x f}, fs.get? x = some f → f.origins = [x]
  parents : ∀ {x f}, fs.get? x = some f → f.parents ⊆ names

theorem Original.live (h : Original names stochastic fs) (hstochastic : stochastic.Nodup) :
    Live names stochastic [] fs := by
  have hkeys : fs.keys.Nodup := h.keys ▸ hstochastic
  have hget {e : String × Factor (δ × List String)} (he : e ∈ fs.entries) :
      fs.get? e.1 = some e.2 := Assoc.get?_of_mem hkeys he
  have hentry {f : Factor (δ × List String)} (hf : f ∈ fs.values) : ∃ x, fs.get? x = some f := by
    obtain ⟨e, he, rfl⟩ := List.mem_map.1 hf
    exact ⟨e.1, hget he⟩
  have hflat {φ : Factor (δ × List String) → List String}
      (hφ : ∀ e ∈ fs.entries, φ e.2 = [e.1]) : fs.values.flatMap φ = stochastic := by
    rw [Assoc.values, List.flatMap_map, List.flatMap_congr hφ, ← h.keys, Assoc.keys]
    exact (List.map_eq_flatMap ..).symm
  have hscopes := hflat fun e he => h.scope (hget he)
  have horigins := hflat fun e he => h.origins (hget he)
  refine ⟨⟨fun e he => by rw [h.scope (hget he)]; rfl, hscopes ▸ hstochastic⟩,
    fun _ _ _ hy => absurd hy List.not_mem_nil,
    horigins ▸ hstochastic, horigins ▸ List.Subset.refl _, fun f hf v => ?_, fun v hv _ => ?_,
    fun f hf => ?_⟩
  · obtain ⟨x, hx⟩ := hentry hf
    simp [h.scope hx, h.origins hx]
  · rwa [hscopes]
  · obtain ⟨x, hx⟩ := hentry hf
    exact h.parents hx

/-- The factor of an observed vertex comes from this vertex, too. -/
theorem Original.put (h : Original names stochastic fs) {x : String} (hx : x ∈ stochastic) {d : δ} :
    Original names stochastic (Assoc.put fs x ⟨[x], (d, [x]), []⟩) where
  keys := by rw [Assoc.keys_put, if_pos (h.keys ▸ hx), h.keys]
  scope {z f} hz := by
    rw [Assoc.get?_put] at hz
    split at hz
    · next heq => cases hz; rw [heq]
    · exact h.scope hz
  origins {z f} hz := by
    rw [Assoc.get?_put] at hz
    split at hz
    · next heq => cases hz; rw [heq]; rfl
    · exact h.origins hz
  parents {z f} hz := by
    rw [Assoc.get?_put] at hz
    split at hz
    · cases hz; exact List.nil_subset _
    · exact h.parents hz

end Live

end Factors

namespace FactorGraph

open Factors

/-- Every vertex has its own name, and a vertex that has a factor has it over itself, with other
vertices for its parents. -/
structure Named (g : FactorGraph δ) : Prop where
  nodup : (g.map (·.1)).Nodup
  scope : ∀ {x f}, (x, some f) ∈ g → f.scope = [x]
  parents : ∀ {x f}, (x, some f) ∈ g → f.parents ⊆ g.map (·.1)

variable {g : FactorGraph δ} {x : String}

theorem mem_of_find {o : Option (Factor δ)} (h : g.find x = .ok o) : (x, o) ∈ g := by
  rw [find] at h
  split at h
  · next hlookup =>
    cases h
    exact Assoc.mem_of_get? (t := ⟨g⟩) hlookup
  · cases h

theorem Named.nodup_stochastic (hg : g.Named) : (g.stochastic.map (·.1)).Nodup :=
  hg.nodup.sublist g.stochastic_sublist

theorem stochastic_traced :
    g.traced.stochastic = g.stochastic.map fun (x, f) => (x, f.withOrigins [x]) := by
  rw [stochastic, stochastic, traced, List.filterMap_map, List.map_filterMap]
  congr 1
  funext v
  obtain ⟨x, _ | f⟩ := v <;> rfl

/-- The factors that a query begins with. -/
theorem Named.original_factors (hg : g.Named) :
    Original (g.map (·.1)) (g.stochastic.map (·.1)) g.traced.factors := by
  have hkeys : g.traced.stochastic.map (·.1) = g.stochastic.map (·.1) := by
    rw [stochastic_traced, List.map_map]
    rfl
  have hentries : g.traced.factors.entries = g.traced.stochastic :=
    Assoc.entries_ofList (hkeys ▸ hg.nodup_stochastic)
  have hmem {x : String} {f : Factor (δ × List String)} (h : g.traced.factors.get? x = some f) :
      ∃ f', (x, some f') ∈ g ∧ f = f'.withOrigins [x] := by
    have hmem := Assoc.mem_of_get? h
    rw [hentries, stochastic_traced] at hmem
    obtain ⟨⟨_, f'⟩, hf', heq⟩ := List.mem_map.1 hmem
    cases heq
    exact ⟨f', mem_stochastic.1 hf', rfl⟩
  refine ⟨by rw [Assoc.keys, hentries, hkeys], fun h => ?_, fun h => ?_, fun h => ?_⟩ <;>
    obtain ⟨f', hf', rfl⟩ := hmem h
  · exact hg.scope hf'
  · rfl
  · exact hg.parents hf'

/-- Observing vertices replaces their factors, which still come from them. -/
theorem observe_original {evidence : List (String × ν)} {names : List String} :
    ∀ {fs fs' : Factors (δ × List String)}, Original names (g.stochastic.map (·.1)) fs →
      g.traced.observe rules.traced fs evidence = .ok fs' →
      Original names (g.stochastic.map (·.1)) fs' := by
  induction evidence with
  | nil =>
    intro fs fs' hfs h
    cases h
    exact hfs
  | cons p evidence ih =>
    obtain ⟨x, value⟩ := p
    intro fs fs' hfs h
    obtain ⟨o, ho, h⟩ := bind_eq_ok.1 h
    rw [find_traced] at ho
    obtain ⟨o, hfind, rfl⟩ := map_eq_ok.1 ho
    cases o with
    | none => cases h
    | some f =>
      obtain ⟨fs₁, hfs₁, h⟩ := bind_eq_ok.1 h
      refine ih ?_ h
      have hx : x ∈ g.stochastic.map (·.1) :=
        List.mem_map_of_mem (mem_stochastic.2 (mem_of_find hfind))
      obtain ⟨d, hd, hfs₁⟩ := bind_eq_ok.1 hfs₁
      obtain ⟨d, -, rfl⟩ := map_eq_ok.1 hd
      cases d with
      | none =>
        cases hfs₁
        exact hfs
      | some d =>
        cases hfs₁
        exact hfs.put hx

/-- What holds of the factors of a query at any point of its elimination, as far as it gets: they
are those of a run in which the origins of factors are known. -/
theorem Named.live (hg : g.Named) {evidence : List (String × ν)} {done : List String}
    {fs₀ fs : Factors δ} (hstart : g.observe rules g.factors evidence = .ok fs₀)
    (hfs : fs₀.eliminateAll rules done = .ok fs) :
    ∃ ts, (g.traced.observe rules.traced g.traced.factors evidence >>=
        fun ts => ts.eliminateAll rules.traced done) = .ok ts ∧
      ts.plain = fs ∧ Live (g.map (·.1)) (g.stochastic.map (·.1)) done ts := by
  rw [← plain_factors, ← plain_observe] at hstart
  obtain ⟨ts₀, hts₀, rfl⟩ := map_eq_ok.1 hstart
  rw [← plain_eliminateAll] at hfs
  obtain ⟨ts, hts, rfl⟩ := map_eq_ok.1 hfs
  have hlive := (observe_original hg.original_factors hts₀).live hg.nodup_stochastic
  exact ⟨ts, bind_eq_ok.2 ⟨ts₀, hts₀, hts⟩, rfl, hlive.eliminateAll hts⟩

end FactorGraph

end PlateModel
