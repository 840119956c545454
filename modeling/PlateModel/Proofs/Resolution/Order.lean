import PlateModel.Proofs.Evaluation.Folding
import PlateModel.Proofs.Model.Substitution
import PlateModel.Resolution.Definitions

/-!
# More definitions decide more

Definitions are extended when logical rules are added and the data stay the same. What an expression
comes to under some definitions may change when they are extended, but not if it is a constant: then
every name that was met on the way is defined, so the rounds of replacing and folding are the same
under the extended definitions, up to the constant.

* `Definitions.Within`: the one definitions are extended by the other.
* `outcome_mono`: a constant outcome is the outcome under extended definitions as well.
-/

namespace PlateModel

/-! ## The mapping of definitions -/

namespace Definitions

theorem lookup_map_snd {α β : Type} (f : α → β) (xs : List (String × α)) (k : String) :
    (xs.map fun (x, v) => (x, f v)).lookup k = (xs.lookup k).map f := by
  induction xs with
  | nil => rfl
  | cons p xs ih =>
    obtain ⟨x, v⟩ := p
    simp only [List.map_cons, List.lookup_cons, ih]
    cases k == x <;> rfl

/-- A name is replaced by its value, if data bind it, or by its rule. -/
theorem lookup_mapping (d : Definitions) (x : String) :
    d.mapping.lookup x = ((d.data.get? x).map Expr.ofNumber).or (d.logical.get? x) := by
  simp only [mapping, List.lookup_append, lookup_map_snd, Assoc.get?]

/-- The data of the one definitions are those of the other, and its rules are among those of the
other. -/
structure Within (d d' : Definitions) : Prop where
  data_eq : d.data = d'.data
  logical : ∀ {x e}, d.logical.get? x = some e → d'.logical.get? x = some e
  size_le : d.logical.size ≤ d'.logical.size

theorem Within.refl (d : Definitions) : d.Within d := ⟨rfl, id, Nat.le_refl _⟩

theorem Within.trans {d₁ d₂ d₃ : Definitions} (h : d₁.Within d₂) (k : d₂.Within d₃) :
    d₁.Within d₃ :=
  ⟨h.data_eq.trans k.data_eq, fun hx => k.logical (h.logical hx), Nat.le_trans h.size_le k.size_le⟩

theorem Within.lookup_mapping {d d' : Definitions} (h : d.Within d') {x : String} {e : Expr}
    (hx : d.mapping.lookup x = some e) : d'.mapping.lookup x = some e := by
  rw [Definitions.lookup_mapping] at hx ⊢
  rw [← h.data_eq]
  cases hd : d.data.get? x with
  | some v => rwa [hd] at hx
  | none =>
    rw [hd] at hx
    exact h.logical hx

theorem replaced_eq_ok {m : Mapping} {e e' : Expr} (h : replaced m e = .ok e') :
    e'.names = (e.substitute m).names := by
  obtain ⟨r, hr, rfl⟩ := map_eq_ok.1 h
  exact Expr.names_fold hr

/-! ## Rounds -/

/-- One step of the rounds: they end with the expression, or go on with its replacement. -/
theorem settle_succ {m : Mapping} {n : Nat} {seen : List Expr} {e r : Expr}
    (h : settle m (n + 1) seen e = .ok r) :
    (r = e ∧ ∃ v, e.constant? = .ok (some v)) ∨
    (e.constant? = .ok none ∧ ∃ next, replaced m e = .ok next ∧
      if seen.any next.same then r = e else settle m n (next :: seen) next = .ok r) := by
  simp only [settle, bind_eq_ok] at h
  obtain ⟨c, hc, h⟩ := h
  cases c with
  | some v =>
    cases h
    exact .inl ⟨rfl, v, hc⟩
  | none =>
    obtain ⟨next, hnext, h⟩ := bind_eq_ok.1 h
    refine .inr ⟨hc, next, hnext, ?_⟩
    split
    · next hseen =>
      simp only [hseen, if_true] at h
      cases h; rfl
    · next hseen =>
      simpa only [hseen, Bool.false_eq_true, if_false] using h

/-- A name without a definition is still there after any number of rounds. -/
theorem mem_names_settle {m : Mapping} {x : String} (hm : m.lookup x = none) :
    ∀ {n : Nat} {seen : List Expr} {e r : Expr}, settle m n seen e = .ok r → x ∈ e.names →
      x ∈ r.names
  | 0, _, _, _, h, hx => by cases h; exact hx
  | n + 1, seen, e, r, h, hx => by
    rcases settle_succ h with ⟨rfl, -⟩ | ⟨-, next, hnext, h⟩
    · exact hx
    · have hx' : x ∈ next.names := by
        rw [replaced_eq_ok hnext]
        exact Expr.mem_names_substitute hm hx
      split at h
      · rwa [h]
      · exact mem_names_settle hm h hx'

/-- Rounds that end with a constant are the same under every mapping with the same entries and
more, and with more rounds to make. -/
theorem settle_mono {m m' : Mapping} {v : Value}
    (hm : ∀ {x e}, m.lookup x = some e → m'.lookup x = some e) :
    ∀ {n n' : Nat} {seen : List Expr} {e r : Expr}, n ≤ n' → settle m n seen e = .ok r →
      r.constant? = .ok (some v) → settle m' n' seen e = .ok r
  | 0, n', seen, e, r, _, h, hr => by
    cases h
    cases n' with
    | zero => rfl
    | succ n' => simp only [settle, hr, bind, Except.bind]; rfl
  | n + 1, 0, _, _, _, hn, _, _ => absurd hn (Nat.not_succ_le_zero n)
  | n + 1, n' + 1, seen, e, r, hn, h, hr => by
    rcases settle_succ h with ⟨rfl, w, hw⟩ | ⟨hc, next, hnext, h'⟩
    · simp only [settle, hw, bind, Except.bind]; rfl
    · -- a name without a definition would still be in the constant
      have defined : ∀ x ∈ e.names, m.lookup x = m'.lookup x := by
        intro x hx
        cases hl : m.lookup x with
        | some rhs => exact (hm hl).symm
        | none =>
          have hx' := mem_names_settle hl h hx
          rw [Expr.names_of_constant? hr] at hx'
          cases hx'
      have hnext' : replaced m' e = .ok next := by
        rw [replaced, ← Expr.substitute_congr defined]
        exact hnext
      simp only [settle, hc, hnext', bind, Except.bind, Option.isSome_none, Bool.false_eq_true,
        if_false]
      split at h'
      · next hseen =>
        subst h'
        rw [hc] at hr
        cases hr
      · next hseen =>
        simp only [hseen, Bool.false_eq_true, if_false]
        exact settle_mono hm (Nat.le_of_succ_le_succ hn) h' hr

/-! ## Outcomes -/

/-- How an expression comes to a constant. -/
theorem outcome_eq_constant {d : Definitions} {e : Expr} {v : Value} :
    d.outcome e = .ok (.constant v) ↔ ∃ a r, e.fold = .ok a ∧
      settle d.mapping d.rounds [a.1] a.1 = .ok r ∧ r.constant? = .ok (some v) := by
  simp only [outcome, bind_eq_ok]
  refine ⟨?_, ?_⟩
  · rintro ⟨a, ha, r, hr, o, ho, h⟩
    refine ⟨a, r, ha, hr, ?_⟩
    cases o with
    | some w => cases h; exact ho
    | none => dsimp only at h; split at h <;> cases h
  · rintro ⟨a, r, ha, hr, hv⟩
    exact ⟨a, ha, r, hr, some v, hv, rfl⟩

/-- A constant outcome is the outcome under extended definitions as well. -/
theorem outcome_mono {d d' : Definitions} (h : d.Within d') {e : Expr} {v : Value}
    (he : d.outcome e = .ok (.constant v)) : d'.outcome e = .ok (.constant v) := by
  obtain ⟨a, r, ha, hr, hv⟩ := outcome_eq_constant.1 he
  have hrounds : d.rounds ≤ d'.rounds := Nat.succ_le_succ h.size_le
  exact outcome_eq_constant.2 ⟨a, r, ha, settle_mono h.lookup_mapping hrounds hr hv, hv⟩

end Definitions

end PlateModel
