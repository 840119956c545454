import Mathlib.Data.List.Forall2
import PlateModel.Elimination.Eliminate
import PlateModel.Proofs.Computation
import PlateModel.Proofs.Table

/-!
# Elimination on lists of factors

The names under which factors are kept say nothing that the factors do not say: a factor is kept
under one of its variables, and no two factors have a variable in common. So what elimination does
can be told of the list of the factors alone.

* `Factors.Keyed`: how factors are kept.
* `Factor.eliminate`, `Factor.eliminateAll`: elimination on a list of factors.
* `Factors.eliminateAll_values`: elimination from a table is elimination from the list.
* `Factor.Simulates`: a correspondence of factors under two kinds of rules that elimination keeps.
-/

namespace PlateModel

variable {δ ν ρ : Type}

namespace Factor

/-- A list of factors without a variable. -/
def eliminate (rules : FactorRules δ ν ρ) (fs : List (Factor δ)) (x : String) :
    Except Fault (List (Factor δ)) :=
  match fs.filter (·.mentions x) with
  | [] => .ok fs
  | f :: rest => do
    let reduced := (← product rules f rest).without x
    return fs.filter (!·.mentions x) ++ if reduced.scope = [] then [] else [reduced]

/-- A list of factors without some variables, one after the other. -/
def eliminateAll (rules : FactorRules δ ν ρ) (fs : List (Factor δ)) (xs : List String) :
    Except Fault (List (Factor δ)) := xs.foldlM (eliminate rules) fs

/-- What is reported of the product of a list of factors. -/
def report (rules : FactorRules δ ν ρ) : List (Factor δ) → Except Fault ρ
  | [] => .ok rules.nothing
  | f :: rest => do rules.report (← product rules f rest).distribution

/-- A factor that mentions none of some variables is still there when they have been eliminated. -/
theorem mem_eliminateAll {rules : FactorRules δ ν ρ} {f : Factor δ} : ∀ {xs : List String}
    {fs fs' : List (Factor δ)}, f ∈ fs → (∀ x ∈ xs, f.mentions x = false) →
      eliminateAll rules fs xs = .ok fs' → f ∈ fs'
  | [], _, _, hf, _, h => by
    cases h
    exact hf
  | x :: xs, fs, fs', hf, hxs, h => by
    obtain ⟨fs₁, h₁, h⟩ := bind_eq_ok.1 h
    refine mem_eliminateAll ?_ (fun y hy => hxs y (List.mem_cons_of_mem _ hy)) h
    rw [eliminate] at h₁
    split at h₁
    · cases h₁
      exact hf
    · obtain ⟨p, -, h₁⟩ := bind_eq_ok.1 h₁
      cases h₁
      refine List.mem_append_left _ (List.mem_filter.2 ⟨hf, ?_⟩)
      rw [hxs x (List.mem_cons_self ..)]
      rfl

/-- The variables of a product are those of its factors. -/
theorem mem_scope_product {rules : FactorRules δ ν ρ} {v : String} : ∀ {f p : Factor δ}
    {fs : List (Factor δ)}, product rules f fs = .ok p →
      (v ∈ p.scope ↔ ∃ g ∈ f :: fs, v ∈ g.scope)
  | f, p, [], h => by
    cases h
    simp
  | f, p, g :: fs, h => by
    obtain ⟨h', hfg, h⟩ := bind_eq_ok.1 h
    obtain ⟨d, -, hd⟩ := bind_eq_ok.1 hfg
    cases hd
    rw [mem_scope_product h]
    simp only [List.mem_cons, exists_eq_or_imp, List.mem_eraseDups, List.mem_append, or_assoc]

end Factor

namespace Factors

variable {fs fs' : Factors δ} {x : String}

/-- A factor is kept under one of its variables, and no two factors have a variable in common. -/
structure Keyed (fs : Factors δ) : Prop where
  nodup : fs.keys.Nodup
  key : ∀ ⦃k f⦄, fs.get? k = some f → k ∈ f.scope
  apart : ∀ ⦃j k f g v⦄, fs.get? j = some f → fs.get? k = some g → v ∈ f.scope → v ∈ g.scope →
    j = k

/-- The factors that mention a variable, with their names. -/
def relevant (fs : Factors δ) (x : String) : List (String × Factor δ) :=
  fs.entries.filter fun (_, f) => f.mentions x

/-- The table without the factors that mention a variable. -/
def others (fs : Factors δ) (x : String) : Factors δ :=
  ⟨fs.entries.filter fun (_, f) => !f.mentions x⟩

theorem values_relevant (fs : Factors δ) (x : String) :
    (fs.relevant x).map (·.2) = fs.values.filter (·.mentions x) := by
  rw [relevant, Assoc.values, List.filter_map]
  rfl

theorem values_others (fs : Factors δ) (x : String) :
    (fs.others x).values = fs.values.filter (!·.mentions x) := by
  rw [others, Assoc.values, Assoc.values, List.filter_map]
  rfl

theorem entries_erase (rs : List (String × Factor δ)) : ∀ fs : Factors δ,
    (rs.foldl (fun fs (k, _) => fs.erase k) fs).entries =
      fs.entries.filter fun e => e.1 ∉ rs.map (·.1) := by
  induction rs with
  | nil => exact fun fs => (List.filter_eq_self.2 (by simp)).symm
  | cons r rs ih =>
    obtain ⟨k, f⟩ := r
    intro fs
    rw [List.foldl_cons, ih]
    show (fs.entries.filter _).filter _ = _
    rw [List.filter_filter]
    refine List.filter_congr fun e _ => ?_
    rw [Bool.eq_iff_iff]
    simp only [ne_eq, Bool.and_eq_true, decide_eq_true_iff, List.map_cons, List.mem_cons, not_or,
      and_comm]

/-- Erasing the names of the factors that mention a variable erases these factors only. -/
theorem erase_relevant (hfs : fs.Keyed) (x : String) :
    (fs.relevant x).foldl (fun fs (k, _) => fs.erase k) fs = fs.others x := by
  refine congrArg Assoc.mk ((entries_erase _ fs).trans (List.filter_congr fun e he => ?_))
  obtain ⟨k, f⟩ := e
  have hiff : k ∈ (fs.relevant x).map (·.1) ↔ f.mentions x := by
    constructor
    · intro hk
      obtain ⟨⟨j, g⟩, hg, rfl⟩ := List.mem_map.1 hk
      obtain ⟨hg, hmentions⟩ := List.mem_filter.1 hg
      have heq := (Assoc.get?_of_mem hfs.nodup he).symm.trans (Assoc.get?_of_mem hfs.nodup hg)
      cases heq
      exact hmentions
    · exact fun hf => List.mem_map.2 ⟨(k, f), List.mem_filter.2 ⟨he, hf⟩, rfl⟩
  rw [Bool.eq_iff_iff, decide_eq_true_iff, hiff]
  simp

theorem nodup_others (hfs : fs.Keyed) (x : String) : (fs.others x).keys.Nodup :=
  hfs.nodup.sublist (List.filter_sublist.map _)

theorem get?_others (hfs : fs.Keyed) {k : String} {f : Factor δ} :
    (fs.others x).get? k = some f ↔ fs.get? k = some f ∧ f.mentions x = false := by
  constructor
  · intro h
    obtain ⟨hmem, hf⟩ := List.mem_filter.1 (Assoc.mem_of_get? h)
    exact ⟨Assoc.get?_of_mem hfs.nodup hmem, by simpa using hf⟩
  · rintro ⟨h, hf⟩
    refine Assoc.get?_of_mem (nodup_others hfs x) (List.mem_filter.2 ⟨Assoc.mem_of_get? h, ?_⟩)
    simpa using hf

theorem Keyed.others (hfs : fs.Keyed) (x : String) : (fs.others x).Keyed where
  nodup := nodup_others hfs x
  key _ _ h := hfs.key ((get?_others hfs).1 h).1
  apart _ _ _ _ _ hf hg := hfs.apart ((get?_others hfs).1 hf).1 ((get?_others hfs).1 hg).1

/-- A factor with variables that no other factor has can be kept under any of them. -/
theorem Keyed.put (hfs : fs.Keyed) {k : String} {f : Factor δ} (hk : k ∈ f.scope)
    (hf : ∀ ⦃j g v⦄, fs.get? j = some g → v ∈ f.scope → v ∈ g.scope → j = k) :
    Keyed (fs.put k f) where
  nodup := Assoc.nodup_put hfs.nodup
  key j g h := by
    rw [Assoc.get?_put] at h
    split at h
    · next hj => cases h; exact hj ▸ hk
    · exact hfs.key h
  apart i j g h v hg hh hvg hvh := by
    rw [Assoc.get?_put] at hg hh
    split at hg <;> split at hh
    · next hi hj => rw [hi, hj]
    · next hi _ => cases hg; exact hi.trans (hf hh hvg hvh).symm
    · next _ hj => cases hh; exact (hf hg hvh hvg).trans hj.symm
    · exact hfs.apart hg hh hvg hvh

/-- What is left of a table when the factors that mention a variable become one without it. -/
theorem Keyed.merge (hfs : fs.Keyed) {p : Factor δ}
    (hp : ∀ v, v ∈ p.scope → ∃ k f, fs.get? k = some f ∧ f.mentions x ∧ v ∈ f.scope) :
    ∀ ⦃j g v⦄, (fs.others x).get? j = some g → v ∈ p.scope → v ∉ g.scope := by
  intro j g v hg hv hvg
  obtain ⟨k, f, hf, hmentions, hvf⟩ := hp v hv
  obtain ⟨hg, hother⟩ := (get?_others hfs).1 hg
  obtain rfl := hfs.apart hf hg hvf hvg
  cases hf.symm.trans hg
  rw [hmentions] at hother
  cases hother

/-- Elimination of a variable from a table is elimination from the list of its factors, and what is
left is again kept in this way. -/
theorem eliminate_values (rules : FactorRules δ ν ρ) (hfs : fs.Keyed) (x : String) :
    (fs.eliminate rules x).map (·.values) = Factor.eliminate rules fs.values x ∧
      ∀ fs', fs.eliminate rules x = .ok fs' → fs'.Keyed := by
  have hrelevant := values_relevant fs x
  rw [Factors.eliminate, ← Factors.relevant, erase_relevant hfs x, Factor.eliminate, ← hrelevant]
  cases hvalues : (fs.relevant x).map (·.2) with
  | nil => exact ⟨rfl, fun fs' h => by cases h; exact hfs⟩
  | cons f rest =>
    dsimp only
    cases hproduct : Factor.product rules f rest with
    | error e => exact ⟨rfl, nofun⟩
    | ok p =>
      have hscope : ∀ v, v ∈ (p.without x).scope → ∃ k g, fs.get? k = some g ∧ g.mentions x ∧
          v ∈ g.scope := by
        intro v hv
        obtain ⟨g, hg, hvg⟩ := (Factor.mem_scope_product hproduct).1 (List.mem_filter.1 hv).1
        rw [← hvalues] at hg
        obtain ⟨⟨k, g⟩, hkg, rfl⟩ := List.mem_map.1 hg
        obtain ⟨hkg, hmentions⟩ := List.mem_filter.1 hkg
        exact ⟨k, g, Assoc.get?_of_mem hfs.nodup hkg, hmentions, hvg⟩
      have hapart := hfs.merge hscope
      simp only [bind, Except.bind]
      cases hreduced : (p.without x).scope with
      | nil =>
        refine ⟨?_, fun fs' h => by cases h; exact hfs.others x⟩
        simp [pure, Except.pure, Except.map, values_others]
      | cons k vs =>
        have hk : k ∈ (p.without x).scope := hreduced ▸ List.mem_cons_self ..
        have hfresh : k ∉ (fs.others x).keys := by
          intro hkeys
          obtain ⟨g, hg⟩ := Assoc.mem_keys_iff.1 hkeys
          exact hapart hg hk ((hfs.others x).key hg)
        refine ⟨?_, fun fs' h => ?_⟩
        · rw [← values_others, Assoc.values]
          simp [pure, Except.pure, Except.map, Assoc.values, Assoc.entries_put_of_not_mem _ hfresh]
        · cases h
          exact (hfs.others x).put hk fun j g v hg hv hvg => absurd hvg (hapart hg hv)

/-- Elimination from a table is elimination from the list of its factors. -/
theorem eliminateAll_values (rules : FactorRules δ ν ρ) : ∀ {xs : List String} {fs : Factors δ},
    fs.Keyed → (fs.eliminateAll rules xs).map (·.values) = Factor.eliminateAll rules fs.values xs
  | [], _, _ => rfl
  | x :: xs, fs, hfs => by
    obtain ⟨hvalues, hkeyed⟩ := eliminate_values rules hfs x
    rw [Factor.eliminateAll, List.foldlM_cons, ← hvalues, eliminateAll]
    cases h : fs.eliminate rules x with
    | error e => rfl
    | ok fs' => exact eliminateAll_values rules (hkeyed fs' h)

end Factors

/-- A query is answered by elimination on the list of the factors. -/
theorem query_of_observe {rules : FactorRules δ ν ρ} {g : FactorGraph δ} {x : String}
    {evidence : List (String × ν)} {o : Option (Factor δ)} {fs : Factors δ} (hx : g.find x = .ok o)
    (hfs : g.observe rules g.factors evidence = .ok fs) (hkeyed : fs.Keyed) :
    query rules g x evidence =
      (Factor.eliminateAll rules fs.values (g.eliminated x evidence) >>= Factor.report rules) := by
  rw [← Factors.eliminateAll_values rules hkeyed, query, hx, hfs]
  simp only [bind, Except.bind]
  cases fs.eliminateAll rules (g.eliminated x evidence) <;> rfl

/-! ## Elimination under other rules

Which factors are multiplied does not depend on what is distributed over their variables. So if
factors under some rules correspond to factors under others, then they do so after elimination.
-/

namespace Factor

variable {δ ν ρ δ' ν' ρ' : Type}

theorem mentions_iff {f : Factor δ} {x : String} :
    f.mentions x ↔ x ∈ f.scope ∨ x ∈ f.parents := by
  simp [mentions]

/-- A correspondence between factors under two kinds of rules that is kept when factors that mention
one of some variables are multiplied, and when the variable is left out. -/
structure Simulates (rules : FactorRules δ ν ρ) (rules' : FactorRules δ' ν' ρ') (xs : List String)
    (Q : Factor δ → Factor δ' → Prop) : Prop where
  scope : ∀ ⦃f g⦄, Q f g → f.scope = g.scope
  parents : ∀ ⦃f g⦄, Q f g → f.parents = g.parents
  multiply : ∀ ⦃x f g f' g'⦄, x ∈ xs → f.mentions x → f'.mentions x → Q f g → Q f' g' →
    ∃ p q, f.multiply rules f' = .ok p ∧ g.multiply rules' g' = .ok q ∧ Q p q
  without : ∀ ⦃x f g⦄, x ∈ xs → f.mentions x → Q f g → Q (f.without x) (g.without x)

variable {rules : FactorRules δ ν ρ} {rules' : FactorRules δ' ν' ρ'} {xs : List String}
  {Q : Factor δ → Factor δ' → Prop} {x : String}

theorem mentions_multiply {f g p : Factor δ} (h : f.multiply rules g = .ok p)
    (hf : f.mentions x) : p.mentions x := by
  obtain ⟨d, -, h⟩ := bind_eq_ok.1 h
  cases h
  refine mentions_iff.2 ((mentions_iff.1 hf).imp (fun hx => ?_) fun hx => ?_)
  · exact List.mem_eraseDups.2 (List.mem_append_left _ hx)
  · exact List.mem_eraseDups.2 (List.mem_append_left _ hx)

namespace Simulates

theorem mentions_eq (hQ : Simulates rules rules' xs Q) {f : Factor δ} {g : Factor δ'} (h : Q f g)
    (x : String) : f.mentions x = g.mentions x := by
  rw [mentions, mentions, hQ.scope h, hQ.parents h]

/-- Products of corresponding factors exist under both rules, and correspond. -/
theorem product (hQ : Simulates rules rules' xs Q) (hx : x ∈ xs) {fs : List (Factor δ)}
    {gs : List (Factor δ')} (hfs : List.Forall₂ Q fs gs) (hmentions : ∀ f ∈ fs, f.mentions x) :
    ∀ {f : Factor δ} {g : Factor δ'}, Q f g → f.mentions x →
      ∃ p q, Factor.product rules f fs = .ok p ∧ Factor.product rules' g gs = .ok q ∧ Q p q ∧
        p.mentions x := by
  induction hfs with
  | nil => exact fun {f g} hfg hf => ⟨f, g, rfl, rfl, hfg, hf⟩
  | @cons f' g' fs gs hfg' _ ih =>
    intro f g hfg hf
    have hf' := hmentions f' (List.mem_cons_self ..)
    obtain ⟨p, q, hp, hq, hpq⟩ := hQ.multiply hx hf hf' hfg hfg'
    obtain ⟨r, s, hr, hs, hrs⟩ := ih (fun h hh => hmentions h (List.mem_cons_of_mem _ hh)) hpq
      (mentions_multiply hp hf)
    exact ⟨r, s, bind_eq_ok.2 ⟨p, hp, hr⟩, bind_eq_ok.2 ⟨q, hq, hs⟩, hrs⟩

/-- Elimination of a variable succeeds under both rules, and what is left corresponds. -/
theorem eliminate (hQ : Simulates rules rules' xs Q) (hx : x ∈ xs) {fs : List (Factor δ)}
    {gs : List (Factor δ')} (hfs : List.Forall₂ Q fs gs) :
    ∃ fs' gs', Factor.eliminate rules fs x = .ok fs' ∧ Factor.eliminate rules' gs x = .ok gs' ∧
      List.Forall₂ Q fs' gs' := by
  have hrelevant : List.Forall₂ Q (fs.filter (·.mentions x)) (gs.filter (·.mentions x)) :=
    List.rel_filter (fun f g h => by simp only [hQ.mentions_eq h]) hfs
  have hothers : List.Forall₂ Q (fs.filter (!·.mentions x)) (gs.filter (!·.mentions x)) :=
    List.rel_filter (fun f g h => by simp only [hQ.mentions_eq h]) hfs
  have hmentions : ∀ f ∈ fs.filter (·.mentions x), f.mentions x := fun f hf =>
    (List.mem_filter.1 hf).2
  rw [Factor.eliminate, Factor.eliminate]
  generalize fs.filter (·.mentions x) = fs₁ at hrelevant hmentions ⊢
  generalize gs.filter (·.mentions x) = gs₁ at hrelevant ⊢
  cases hrelevant with
  | nil => exact ⟨fs, gs, rfl, rfl, hfs⟩
  | @cons f g fs₁ gs₁ hfg hrest =>
    obtain ⟨hf, hmentions⟩ := List.forall_mem_cons.1 hmentions
    obtain ⟨p, q, hp, hq, hpq, hpx⟩ := hQ.product hx hrest hmentions hfg hf
    refine ⟨_, _, bind_eq_ok.2 ⟨p, hp, rfl⟩, bind_eq_ok.2 ⟨q, hq, rfl⟩, List.rel_append hothers ?_⟩
    have hreduced := hQ.without hx hpx hpq
    rw [hQ.scope hreduced]
    split
    · exact .nil
    · exact .cons hreduced .nil

/-- Elimination succeeds under both rules, and what is left corresponds. -/
theorem eliminateAll (hQ : Simulates rules rules' xs Q) : ∀ {ys : List String}, ys ⊆ xs →
    ∀ {fs : List (Factor δ)} {gs : List (Factor δ')}, List.Forall₂ Q fs gs →
      ∃ fs' gs', Factor.eliminateAll rules fs ys = .ok fs' ∧
        Factor.eliminateAll rules' gs ys = .ok gs' ∧ List.Forall₂ Q fs' gs'
  | [], _, fs, gs, hfs => ⟨fs, gs, rfl, rfl, hfs⟩
  | y :: ys, hys, fs, gs, hfs => by
    obtain ⟨hy, hys⟩ := List.cons_subset.1 hys
    obtain ⟨fs₁, gs₁, hf, hg, hfs₁⟩ := hQ.eliminate hy hfs
    obtain ⟨fs', gs', hf', hg', hfs'⟩ := hQ.eliminateAll hys hfs₁
    exact ⟨fs', gs', bind_eq_ok.2 ⟨fs₁, hf, hf'⟩, bind_eq_ok.2 ⟨gs₁, hg, hg'⟩, hfs'⟩

end Simulates

end Factor

end PlateModel
