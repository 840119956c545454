import Mathlib.Algebra.BigOperators.Fin
import Mathlib.Algebra.GroupWithZero.Pi
import Mathlib.Algebra.Order.BigOperators.Group.Finset
import Mathlib.Algebra.Order.Field.Basic
import Mathlib.Tactic.Ring
import PlateModel.Elimination.Eliminate
import PlateModel.Proofs.Computation

/-!
# Probabilities of categories in exact arithmetic

The rules for factors of laws on categories, with numbers of an ordered field in the place of
floats: probabilities are multiplied category by category and divided by their sum, and an observed
vertex has a law on one category.

* `exactRules`: the rules.
* `product_share`: the product of two laws.
* `IsLaw`: laws on one category, and laws that give every category a positive probability.
* `IsLaw.product`, `product_of_ne`: products of such laws.
* `unevenLaw`: a law whose powers tell how many laws have been multiplied.
-/

namespace PlateModel

section Field

variable {𝕜 : Type} [Field 𝕜]

/-- Numbers in proportion to the given ones, with the sum one. -/
def normalized (ps : List 𝕜) : List 𝕜 := ps.map (· / ps.sum)

/-- The law on one of so many categories. -/
def pointLaw (count k : Nat) : List 𝕜 :=
  (List.range count).map fun i => if i + 1 = k then 1 else 0

/-- The rules for factors of laws on categories, where arithmetic is exact. A category is given by
its number. -/
def exactRules [DecidableEq 𝕜] : FactorRules (List 𝕜) Nat 𝕜 where
  product scope ps qs :=
    if ps.length ≠ qs.length then .error (.network (.categoryCounts ps.length qs.length))
    else
      let products := List.zipWith (· * ·) ps qs
      if products.sum = 0 then .error (.network (.noMass scope)) else .ok (normalized products)
  observed name k prior :=
    if 1 ≤ k ∧ k ≤ prior.length then .ok (some (pointLaw prior.length k))
    else .error (.network (.evidenceCategory (Decimal.ofInt k) name prior.length))
  report
    | p :: _ => .ok p
    | [] => .error (.evaluation .outOfBounds)
  nothing := 1

/-! ## Laws as functions of the category -/

variable {n : Nat}

/-- The part that every category has of the sum. -/
def share (f : Fin n → 𝕜) : Fin n → 𝕜 := fun i => f i / ∑ j, f j

theorem zipWith_ofFn (f g : Fin n → 𝕜) :
    List.zipWith (· * ·) (List.ofFn f) (List.ofFn g) = List.ofFn (f * g) := by
  refine List.ext_getElem (by simp) fun i hi hi' => ?_
  simp

theorem normalized_ofFn (f : Fin n → 𝕜) : normalized (List.ofFn f) = List.ofFn (share f) := by
  rw [normalized, List.sum_ofFn, List.map_ofFn]
  rfl

theorem share_of_sum_eq_one {f : Fin n → 𝕜} (h : ∑ i, f i = 1) : share f = f := by
  funext i
  rw [share, h, div_one]

/-- Numbers in the same proportion have the same shares. -/
theorem share_mul {c : 𝕜} (hc : c ≠ 0) (f : Fin n → 𝕜) : share (fun i => c * f i) = share f := by
  funext i
  rw [share, share, ← Finset.mul_sum, mul_div_mul_left _ _ hc]

theorem share_mul_share (f g : Fin n → 𝕜) :
    share f * share g = fun i => ((∑ j, f j) * ∑ j, g j)⁻¹ * (f * g) i := by
  funext i
  simp only [Pi.mul_apply, share, div_eq_mul_inv, mul_inv]
  ring

theorem share_single (k : Fin n) {a : 𝕜} (ha : a ≠ 0) :
    share (Pi.single k a) = Pi.single k 1 := by
  have hsum : ∑ j, (Pi.single k a : Fin n → 𝕜) j = a := by simp
  funext i
  rw [share, hsum]
  by_cases h : i = k <;> simp [h, ha]

variable [DecidableEq 𝕜] (scope : List String) {f g : Fin n → 𝕜}

/-- The product of two laws has the shares of the products, unless all of these are zero. -/
theorem product_share (hf : ∑ i, f i ≠ 0) (hg : ∑ i, g i ≠ 0) (hfg : ∑ i, (f * g) i ≠ 0) :
    exactRules.product scope (List.ofFn (share f)) (List.ofFn (share g)) =
      .ok (List.ofFn (share (f * g))) := by
  have hc : ((∑ j, f j) * ∑ j, g j)⁻¹ ≠ 0 := inv_ne_zero (mul_ne_zero hf hg)
  have hsum : (List.ofFn (share f * share g)).sum ≠ 0 := by
    rw [List.sum_ofFn, share_mul_share, ← Finset.mul_sum]
    exact mul_ne_zero hc hfg
  rw [exactRules]
  dsimp only
  rw [if_neg (by simp), zipWith_ofFn, if_neg hsum, normalized_ofFn, share_mul_share, share_mul hc]

theorem product_eq_error (hfg : ∑ i, (f * g) i = 0) :
    exactRules.product scope (List.ofFn (share f)) (List.ofFn (share g)) =
      .error (.network (.noMass scope)) := by
  have hsum : (List.ofFn (share f * share g)).sum = 0 := by
    rw [List.sum_ofFn, share_mul_share, ← Finset.mul_sum, hfg, mul_zero]
  rw [exactRules]
  dsimp only
  rw [if_neg (by simp), zipWith_ofFn, if_pos hsum]

theorem report_ofFn [NeZero n] (f : Fin n → 𝕜) : exactRules.report (List.ofFn f) = .ok (f 0) := by
  obtain ⟨m, rfl⟩ := Nat.exists_eq_succ_of_ne_zero (NeZero.ne n)
  rw [List.ofFn_succ]
  rfl

end Field

/-! ## Positive laws and laws on one category -/

variable {𝕜 : Type} [Field 𝕜] [LinearOrder 𝕜] {n : Nat}

/-- Numbers are positive at a category and zero at the others, or positive at all. -/
def Supports (c : Option (Fin n)) (f : Fin n → 𝕜) : Prop :=
  match c with
  | some k => ∃ a, 0 < a ∧ f = Pi.single k a
  | none => ∀ i, 0 < f i

/-- A law on a category, or one that gives every category a positive probability. -/
def IsLaw (c : Option (Fin n)) (ps : List 𝕜) : Prop :=
  ∃ f : Fin n → 𝕜, Supports c f ∧ ps = List.ofFn (share f)

/-- The probabilities of a law on so many categories, all of them positive. -/
structure IsPositiveLaw (n : Nat) (ps : List 𝕜) : Prop where
  length_eq : ps.length = n
  pos : ∀ p ∈ ps, 0 < p
  sum_eq : ps.sum = 1

instance (n : Nat) (ps : List 𝕜) : Decidable (IsPositiveLaw n ps) :=
  decidable_of_iff (ps.length = n ∧ (∀ p ∈ ps, 0 < p) ∧ ps.sum = 1)
    ⟨fun ⟨h₁, h₂, h₃⟩ => ⟨h₁, h₂, h₃⟩, fun ⟨h₁, h₂, h₃⟩ => ⟨h₁, h₂, h₃⟩⟩

/-- The probability of a category, by its position. -/
def probability (n : Nat) (ps : List 𝕜) : Fin n → 𝕜 := fun i => ps.getD i 1

/-- Laws on different categories have no product. -/
theorem product_of_ne (scope : List String) {k j : Fin n} (hkj : k ≠ j) {ps qs : List 𝕜}
    (hp : IsLaw (some k) ps) (hq : IsLaw (some j) qs) :
    exactRules.product scope ps qs = .error (.network (.noMass scope)) := by
  obtain ⟨_, ⟨a, -, rfl⟩, rfl⟩ := hp
  obtain ⟨_, ⟨b, -, rfl⟩, rfl⟩ := hq
  refine product_eq_error scope (Finset.sum_eq_zero fun i _ => ?_)
  rw [Pi.mul_apply]
  by_cases hi : i = k
  · rw [hi, Pi.single_eq_of_ne hkj, mul_zero]
  · rw [Pi.single_eq_of_ne hi, zero_mul]

/-- What is reported of a law on a category is whether it is the first. -/
theorem report_of_point [NeZero n] {k : Fin n} {ps : List 𝕜} (h : IsLaw (some k) ps) :
    exactRules.report ps = .ok (if k = 0 then 1 else 0) := by
  obtain ⟨_, ⟨a, ha, rfl⟩, rfl⟩ := h
  rw [share_single k ha.ne', report_ofFn, Pi.single_apply]
  simp only [eq_comm]

section Positive

variable {ps : List 𝕜}

theorem IsPositiveLaw.ofFn_probability (h : IsPositiveLaw n ps) :
    List.ofFn (probability n ps) = ps := by
  refine List.ext_getElem (by simp [h.length_eq]) fun i hi hi' => ?_
  simp [probability, hi']

theorem IsPositiveLaw.share_probability (h : IsPositiveLaw n ps) :
    share (probability n ps) = probability n ps := by
  refine share_of_sum_eq_one ?_
  rw [← List.sum_ofFn, h.ofFn_probability, h.sum_eq]

theorem IsPositiveLaw.supports (h : IsPositiveLaw n ps) : Supports none (probability n ps) := by
  intro i
  have hmem : probability n ps i ∈ List.ofFn (probability n ps) := List.mem_ofFn.2 ⟨i, rfl⟩
  rw [h.ofFn_probability] at hmem
  exact h.pos _ hmem

theorem IsPositiveLaw.isLaw (h : IsPositiveLaw n ps) : IsLaw (none : Option (Fin n)) ps :=
  ⟨probability n ps, h.supports, by rw [h.share_probability, h.ofFn_probability]⟩

end Positive

variable [IsStrictOrderedRing 𝕜]

theorem Supports.sum_pos [NeZero n] {c : Option (Fin n)} {f : Fin n → 𝕜} (h : Supports c f) :
    0 < ∑ i, f i := by
  cases c with
  | none => exact Finset.sum_pos (fun i _ => h i) Finset.univ_nonempty
  | some k =>
    obtain ⟨a, ha, rfl⟩ := h
    simpa using ha

theorem Supports.mul {c d : Option (Fin n)} {f g : Fin n → 𝕜} (hf : Supports c f)
    (hg : Supports d g) (hcd : ∀ k j, c = some k → d = some j → k = j) :
    Supports (c.or d) (f * g) := by
  cases c with
  | none =>
    cases d with
    | none => exact fun i => mul_pos (hf i) (hg i)
    | some j =>
      obtain ⟨a, ha, rfl⟩ := hg
      exact ⟨f j * a, mul_pos (hf j) ha, by rw [← Pi.single_mul_right]⟩
  | some k =>
    obtain ⟨a, ha, rfl⟩ := hf
    cases d with
    | none => exact ⟨a * g k, mul_pos ha (hg k), by rw [← Pi.single_mul_left]⟩
    | some j =>
      obtain ⟨b, hb, rfl⟩ := hg
      obtain rfl := hcd k j rfl rfl
      exact ⟨a * b, mul_pos ha hb, by rw [← Pi.single_mul]⟩

theorem IsLaw.product [NeZero n] (scope : List String) {c d : Option (Fin n)} {ps qs : List 𝕜}
    (hp : IsLaw c ps) (hq : IsLaw d qs) (hcd : ∀ k j, c = some k → d = some j → k = j) :
    ∃ rs, exactRules.product scope ps qs = .ok rs ∧ IsLaw (c.or d) rs := by
  obtain ⟨f, hf, rfl⟩ := hp
  obtain ⟨g, hg, rfl⟩ := hq
  have hfg := hf.mul hg hcd
  exact ⟨_, product_share scope hf.sum_pos.ne' hg.sum_pos.ne' hfg.sum_pos.ne', f * g, hfg, rfl⟩

theorem isLaw_pointLaw (k : Fin n) : IsLaw (some k) (pointLaw n (k + 1) : List 𝕜) := by
  refine ⟨Pi.single k 1, ⟨1, one_pos, rfl⟩, ?_⟩
  rw [share_single k one_ne_zero]
  refine List.ext_getElem (by simp [pointLaw]) fun i hi hi' => ?_
  simp [pointLaw, Pi.single_apply, Fin.ext_iff]

/-! ## A law whose powers differ -/

/-- The second of two categories is twice as likely as the first. -/
def unevenLaw : List 𝕜 := [1 / 3, 2 / 3]

theorem isPositiveLaw_unevenLaw : IsPositiveLaw 2 (unevenLaw : List 𝕜) where
  length_eq := rfl
  pos p hp := by
    have hthree : (0 : 𝕜) < 3 := zero_lt_three
    rcases List.mem_pair.1 hp with rfl | rfl
    · exact div_pos one_pos hthree
    · exact div_pos two_pos hthree
  sum_eq := by
    rw [unevenLaw, List.sum_cons, List.sum_singleton, ← add_div, add_comm, two_add_one_eq_three]
    exact div_self three_ne_zero

theorem share_unevenLaw_pow (k : Nat) :
    share (probability 2 (unevenLaw : List 𝕜) ^ k) 0 = (1 + 2 ^ k)⁻¹ := by
  have hthird : (3 : 𝕜)⁻¹ ^ k ≠ 0 := pow_ne_zero k (inv_ne_zero three_ne_zero)
  have hfirst : probability 2 (unevenLaw : List 𝕜) 0 = 3⁻¹ := one_div 3
  have hsecond : probability 2 (unevenLaw : List 𝕜) 1 = 2 * 3⁻¹ := div_eq_mul_inv 2 3
  rw [share, Fin.sum_univ_two, Pi.pow_apply, Pi.pow_apply, hfirst, hsecond, mul_pow,
    ← one_add_mul, div_mul_cancel_right₀ hthird]

/-- The number of laws can be read off their product. -/
theorem share_unevenLaw_injective :
    Function.Injective fun k => share (probability 2 (unevenLaw : List 𝕜) ^ k) 0 := by
  intro k l h
  simp only [share_unevenLaw_pow] at h
  exact pow_right_injective₀ two_pos one_lt_two.ne' (add_left_cancel (inv_injective h))

/-! ## Products of many laws -/

section Products

variable {category : Factor (List 𝕜) → Option (Fin n)}

/-- The category of one of some laws. -/
def Names (category : Factor (List 𝕜) → Option (Fin n)) (c : Option (Fin n))
    (fs : List (Factor (List 𝕜))) (k : Fin n) : Prop :=
  c = some k ∨ ∃ f ∈ fs, category f = some k

omit [Field 𝕜] [LinearOrder 𝕜] [IsStrictOrderedRing 𝕜] in
theorem names_cons {c : Option (Fin n)} {g : Factor (List 𝕜)} {fs : List (Factor (List 𝕜))}
    (h : ∀ k j, c = some k → category g = some j → k = j) {k : Fin n} :
    Names category c (g :: fs) k ↔ Names category (c.or (category g)) fs k := by
  simp only [Names, List.mem_cons, exists_eq_or_imp, ← or_assoc]
  refine or_congr_left ?_
  cases c with
  | none => simp
  | some i =>
    simp only [Option.some_or, Option.some.injEq]
    exact ⟨fun hk => hk.elim id fun hk => h i k rfl hk, .inl⟩

variable [NeZero n]

/-- Laws on the same category, and positive ones, have a product that is a law on this category. -/
theorem product_of_same : ∀ {fs : List (Factor (List 𝕜))} {f : Factor (List 𝕜)}
    {c : Option (Fin n)}, IsLaw c f.distribution → (∀ g ∈ fs, IsLaw (category g) g.distribution) →
    (∀ k j, Names category c fs k → Names category c fs j → k = j) →
    ∃ p d, Factor.product exactRules f fs = .ok p ∧ IsLaw d p.distribution ∧
      ∀ k, Names category c fs k → d = some k
  | [], f, c, hf, _, _ => ⟨f, c, rfl, hf, fun k hk => hk.elim id fun ⟨_, h, _⟩ => nomatch h⟩
  | g :: fs, f, c, hf, hfs, hsame => by
    have hcg : ∀ k j, c = some k → category g = some j → k = j := fun k j hk hj =>
      hsame k j (.inl hk) (.inr ⟨g, List.mem_cons_self .., hj⟩)
    obtain ⟨ps, hps, hlaw⟩ :=
      hf.product (f.scope ++ g.scope).eraseDups (hfs g (List.mem_cons_self ..)) hcg
    obtain ⟨p, d, hp, hd, hnames⟩ := product_of_same
      (f := ⟨(f.scope ++ g.scope).eraseDups, ps, (f.parents ++ g.parents).eraseDups⟩) hlaw
      (fun h hh => hfs h (List.mem_cons_of_mem _ hh)) fun k j hk hj =>
        hsame k j ((names_cons hcg).2 hk) ((names_cons hcg).2 hj)
    exact ⟨p, d, bind_eq_ok.2 ⟨_, bind_eq_ok.2 ⟨ps, hps, rfl⟩, hp⟩, hd,
      fun k hk => hnames k ((names_cons hcg).1 hk)⟩

/-- Laws on different categories have no product. -/
theorem product_of_different : ∀ {fs : List (Factor (List 𝕜))} {f : Factor (List 𝕜)}
    {c : Option (Fin n)}, IsLaw c f.distribution → (∀ g ∈ fs, IsLaw (category g) g.distribution) →
    ∀ {k j : Fin n}, k ≠ j → Names category c fs k → Names category c fs j →
    ∃ e, Factor.product exactRules f fs = .error e
  | [], f, c, _, _, k, j, hkj, hk, hj => by
    have single {i : Fin n} (hi : Names category c [] i) : c = some i :=
      hi.elim id fun ⟨_, h, _⟩ => nomatch h
    exact absurd (Option.some.inj ((single hk).symm.trans (single hj))) hkj
  | g :: fs, f, c, hf, hfs, k, j, hkj, hk, hj => by
    have hg := hfs g (List.mem_cons_self ..)
    by_cases hcg : ∀ k j, c = some k → category g = some j → k = j
    · obtain ⟨ps, hps, hlaw⟩ := hf.product (f.scope ++ g.scope).eraseDups hg hcg
      obtain ⟨e, he⟩ := product_of_different
        (f := ⟨(f.scope ++ g.scope).eraseDups, ps, (f.parents ++ g.parents).eraseDups⟩) hlaw
        (fun h hh => hfs h (List.mem_cons_of_mem _ hh)) hkj ((names_cons hcg).1 hk)
        ((names_cons hcg).1 hj)
      exact ⟨e, bind_eq_error.2 (.inr ⟨_, bind_eq_ok.2 ⟨ps, hps, rfl⟩, he⟩)⟩
    · push Not at hcg
      obtain ⟨a, b, rfl, hb, hab⟩ := hcg
      rw [hb] at hg
      exact ⟨_, bind_eq_error.2 (.inl (bind_eq_error.2 (.inl (product_of_ne _ hab hf hg))))⟩

end Products

end PlateModel
