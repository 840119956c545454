import Mathlib.Data.Nat.Find
import PlateModel.Proofs.Model.Parts
import PlateModel.Proofs.Resolution.Settling

/-!
# How deep definitions go

A name is defined to the ground if it has a definition, the names in that have definitions, and so
on, until definitions without names are left. Each round of replacing and folding goes one level
down, so an expression comes to a constant by partial evaluation if and only if its calls can be
folded and none of its names lies deeper than there are rounds. That a form recurs never ends the
rounds too early: forms of different depths have different names.

* `Mapping.Grounded`: a name is defined to the ground in at most so many steps.
* `Definitions.outcome_eq_constant_iff`: when the outcome of an expression is a constant.
* `Definitions.outcome_of_mem_names`: the names in the definition of a constant are constants.
-/

namespace PlateModel

/-! ## Depth -/

/-- A number with a property is not below the least one. -/
theorem exists_least {p : Nat → Prop} {k : Nat} (h : p k) : ∃ j ≤ k, p j ∧ ∀ i < j, ¬ p i := by
  classical
  have hex : ∃ j, p j := ⟨k, h⟩
  exact ⟨Nat.find hex, Nat.find_min' hex h, Nat.find_spec hex, fun i hi => Nat.find_min hex hi⟩

/-- From a name definitions without names are reached in at most so many steps. -/
def Mapping.Grounded (m : Mapping) : Nat → String → Prop
  | 0, _ => False
  | k + 1, x => ∃ rhs, m.lookup x = some rhs ∧ ∀ y ∈ rhs.names, m.Grounded k y

/-- All names of an expression are grounded. -/
def Expr.GroundedBy (m : Mapping) (k : Nat) (e : Expr) : Prop := ∀ y ∈ e.names, m.Grounded k y

variable {m : Mapping}

theorem Mapping.Grounded.succ : ∀ {k : Nat} {x : String}, m.Grounded k x → m.Grounded (k + 1) x
  | 0, _, h => h.elim
  | _ + 1, _, ⟨rhs, hx, h⟩ => ⟨rhs, hx, fun y hy => (h y hy).succ⟩

theorem Mapping.Grounded.mono {j k : Nat} {x : String} (hjk : j ≤ k) (h : m.Grounded j x) :
    m.Grounded k x := by
  induction hjk with
  | refl => exact h
  | step _ ih => exact ih.succ

namespace Expr

theorem GroundedBy.mono {j k : Nat} {e : Expr} (hjk : j ≤ k) (h : e.GroundedBy m j) :
    e.GroundedBy m k := fun y hy => (h y hy).mono hjk

/-- Names one level deeper are those of the expression with its names replaced. -/
theorem groundedBy_substitute {k : Nat} {e : Expr} (h : e.GroundedBy m (k + 1)) :
    (e.substitute m).GroundedBy m k := by
  intro z hz
  rw [names_substitute, List.mem_flatMap] at hz
  obtain ⟨y, hy, hz⟩ := hz
  obtain ⟨rhs, hrhs, hnames⟩ := h y hy
  rw [hrhs] at hz
  exact hnames z hz

/-- An expression whose names have definitions lies one level higher than what these make of it. -/
theorem groundedBy_of_substitute {k : Nat} {e : Expr} (hdefined : ∀ y ∈ e.names, m.lookup y ≠ none)
    (h : (e.substitute m).GroundedBy m k) : e.GroundedBy m (k + 1) := by
  intro y hy
  obtain ⟨rhs, hrhs⟩ := Option.ne_none_iff_exists'.1 (hdefined y hy)
  refine ⟨rhs, hrhs, fun z hz => h z ?_⟩
  rw [names_substitute, List.mem_flatMap]
  exact ⟨y, hy, by rwa [hrhs]⟩

mutual

/-- Expressions that are the same have the same names. -/
theorem names_of_same : ∀ {a b : Expr}, a.same b → a.names = b.names
  | literal .., literal .., _ | colon _, colon _, _ => rfl
  | name x, name y, h => by rw [names, names, eq_of_beq h]
  | index a is _, index b js _, h => by
    simp only [same, Bool.and_eq_true] at h
    rw [names, names, names_of_same h.1, namesOfAll_of_same h.2]
  | call f xs _, call g ys _, h => by
    simp only [same, Bool.and_eq_true] at h
    rw [names, names, namesOfAll_of_same h.2]
  | range a b _, range c d _, h => by
    simp only [same, Bool.and_eq_true] at h
    rw [names, names, names_of_same h.1, names_of_same h.2]
  | stepped a b s _, stepped c d t _, h => by
    simp only [same, Bool.and_eq_true] at h
    rw [names, names, names_of_same h.1.1, names_of_same h.1.2, names_of_same h.2]
  | array xs s _, array ys t _, h => by
    simp only [same, Bool.and_eq_true] at h
    rw [names, names, namesOfAll_of_same h.1]

theorem namesOfAll_of_same : ∀ {as bs : List Expr}, sameAll as bs → namesOfAll as = namesOfAll bs
  | [], [], _ => rfl
  | a :: as, b :: bs, h => by
    simp only [sameAll, Bool.and_eq_true] at h
    rw [namesOfAll, namesOfAll, names_of_same h.1, namesOfAll_of_same h.2]

end

/-- A form is new if its names have a property that those of no form before it have. -/
theorem not_any_same {q : List String → Prop} {seen : List Expr} {e : Expr}
    (hseen : ∀ s ∈ seen, ¬ q s.names) (h : q e.names) : ¬ seen.any e.same := by
  intro hany
  obtain ⟨s, hs, hsame⟩ := List.any_eq_true.1 hany
  exact hseen s hs (names_of_same hsame ▸ h)

end Expr

/-! ## Coming to a constant -/

mutual

/-- Folded, an expression without names is the constant that it comes to. -/
theorem Comes.fold_eq {e c : Expr} {r : Expr × Nat} : Comes m e c → e.names = [] →
    e.fold = .ok r → r.1 = c
  | .literal v k, _, h => by cases h; rfl
  | .call hargs hc hv, hnames, h => by
    simp only [Expr.fold, bind_eq_ok] at h
    obtain ⟨a, ha, b, hb, h⟩ := h
    cases h
    rw [hargs.foldAll_eq hnames ha, hc] at hb
    cases hb
    rfl
  | .array hxs hv, hnames, h => by
    simp only [Expr.fold, bind_eq_ok] at h
    obtain ⟨a, ha, h⟩ := h
    cases h
    rw [hxs.foldAll_eq hnames ha]

theorem ComesAll.foldAll_eq {es cs : List Expr} {r : List Expr × Nat} : ComesAll m es cs →
    Expr.namesOfAll es = [] → Expr.foldAll es = .ok r → r.1 = cs
  | .nil, _, h => by cases h; rfl
  | .cons he hes, hnames, h => by
    obtain ⟨hn, hns⟩ := List.append_eq_nil_iff.1 hnames
    simp only [Expr.foldAll, bind_eq_ok] at h
    obtain ⟨a, ha, b, hb, h⟩ := h
    cases h
    rw [he.fold_eq hn ha, hes.foldAll_eq hns hb]

end

mutual

/-- Where an expression comes to a constant, each of its names does. -/
theorem Comes.of_mem_names {e c : Expr} {y : String} : Comes m e c → y ∈ e.names →
    ∃ c', Comes m (.name y) c'
  | .name hx h, hy => by
    obtain rfl := List.mem_singleton.1 hy
    exact ⟨_, .name hx h⟩
  | .call hargs _ _, hy => hargs.of_mem_names hy
  | .array hxs _, hy => hxs.of_mem_names hy

theorem ComesAll.of_mem_names {es cs : List Expr} {y : String} : ComesAll m es cs →
    y ∈ Expr.namesOfAll es → ∃ c', Comes m (.name y) c'
  | .cons he hes, hy => (List.mem_append.1 hy).elim he.of_mem_names hes.of_mem_names

end

mutual

/-- An expression comes to one constant only. -/
theorem Comes.unique {e c c' : Expr} : Comes m e c → Comes m e c' → c = c'
  | .literal v k, h' => by cases h'; rfl
  | .name hx h, h' => by
    cases h' with
    | name hx' h' =>
      cases hx.symm.trans hx'
      exact h.unique h'
  | .call h hc _, h' => by
    cases h' with
    | call h' hc' _ =>
      cases h.unique h'
      cases hc.symm.trans hc'
      rfl
  | .array h _, h' => by
    cases h' with
    | array h' _ => rw [h.unique h']

theorem ComesAll.unique {es cs cs' : List Expr} : ComesAll m es cs → ComesAll m es cs' → cs = cs'
  | .nil, .nil => rfl
  | .cons h hs, .cons h' hs' => by rw [h.unique h', hs.unique hs']

end

/-! ## Rounds -/

namespace Definitions

/-- Rounds that end with a constant have reached the ground under every name. -/
theorem groundedBy_of_settle {v : Value} : ∀ {n : Nat} {seen : List Expr} {e r : Expr},
    settle m n seen e = .ok r → r.constant? = .ok (some v) → e.GroundedBy m n
  | 0, _, _, _, h, hv => by
    cases h
    rw [Expr.GroundedBy, Expr.names_of_constant? hv]
    exact nofun
  | n + 1, seen, e, r, h, hv => by
    rcases settle_succ h with ⟨rfl, -⟩ | ⟨hnone, next, hnext, hrest⟩
    · rw [Expr.GroundedBy, Expr.names_of_constant? hv]
      exact nofun
    · split at hrest
      · rw [hrest, hnone] at hv
        cases hv
      · have hdeeper : (e.substitute m).GroundedBy m n := by
          rw [Expr.GroundedBy, ← replaced_eq_ok hnext]
          exact groundedBy_of_settle hrest hv
        refine Expr.groundedBy_of_substitute (fun y hy hfree => ?_) hdeeper
        -- a name without a definition would still be in the constant
        have hr := mem_names_settle hfree h hy
        rw [Expr.names_of_constant? hv] at hr
        cases hr

/-- Rounds reach the constant that an expression comes to, if its names are grounded in as many
steps. The forms that were seen before lie deeper, so none of them recurs. -/
theorem settle_eq_of_grounded {c : Expr} : ∀ {n k : Nat} {seen : List Expr} {e : Expr},
    Comes m e c → (e.names = [] → e = c) → e.GroundedBy m k → k ≤ n →
    (∀ s ∈ seen, ∀ j < k, ¬ s.GroundedBy m j) → settle m n seen e = .ok c
  | 0, k, seen, e, h, hground, hk, hkn, _ => by
    obtain rfl := Nat.le_zero.1 hkn
    rw [hground (List.eq_nil_iff_forall_not_mem.2 hk)]
    rfl
  | n + 1, k, seen, e, h, hground, hk, hkn, hseen => by
    obtain ⟨o, ho, heq⟩ := h.constant?
    cases o with
    | some v =>
      obtain rfl := heq rfl
      simp only [settle, ho, bind, Except.bind, Option.isSome_some, if_true]
      rfl
    | none =>
      obtain _ | k := k
      · rw [hground (List.eq_nil_iff_forall_not_mem.2 hk)] at ho
        obtain ⟨v, hv⟩ := h.isConstant
        rw [ho] at hv
        cases hv
      obtain ⟨a, ha, hnext⟩ := (h.substitute fun hx => hx).fold
      have hreplaced : replaced m e = .ok a.1 := by rw [replaced, ha]; rfl
      have hdeeper : a.1.GroundedBy m k := by
        rw [Expr.GroundedBy, replaced_eq_ok hreplaced]
        exact Expr.groundedBy_substitute hk
      have hfresh : ¬ seen.any a.1.same :=
        Expr.not_any_same (q := fun names => ∀ y ∈ names, m.Grounded k y)
          (fun s hs => hseen s hs k (Nat.lt_succ_self k)) hdeeper
      simp only [settle, ho, hreplaced, hfresh, bind, Except.bind, Option.isSome_none,
        Bool.false_eq_true, if_false]
      -- the next form goes on from its own depth
      obtain ⟨j, hjk, hj, hleast⟩ := exists_least (p := (a.1.GroundedBy m ·)) hdeeper
      refine settle_eq_of_grounded hnext (fun hnil => ?_) hj
        (Nat.le_trans hjk (Nat.le_of_succ_le_succ hkn)) ?_
      · refine (h.substitute fun hx => hx).fold_eq ?_ ha
        rw [← replaced_eq_ok hreplaced, hnil]
      · intro s hs i hi
        rcases List.mem_cons.1 hs with rfl | hs
        · exact hleast i hi
        · exact hseen s hs i (Nat.lt_succ_of_lt (Nat.lt_of_lt_of_le hi hjk))

/-! ## Outcomes -/

variable {d : Definitions}

/-- An expression comes to a constant if and only if its calls can be folded in the end and its
names are grounded in as many steps as there are rounds. -/
theorem outcome_eq_constant_iff {e : Expr} {v : Value} : d.outcome e = .ok (.constant v) ↔
    ∃ c, Comes d.mapping e c ∧ c.constant? = .ok (some v) ∧ e.GroundedBy d.mapping d.rounds := by
  rw [outcome_eq_constant]
  constructor
  · rintro ⟨a, r, ha, hr, hv⟩
    refine ⟨r, comes_of_fold ha (comes_of_settle hr (Expr.comes_self hv)), hv, ?_⟩
    rw [Expr.GroundedBy, ← Expr.names_fold ha]
    exact groundedBy_of_settle hr hv
  · rintro ⟨c, h, hv, hground⟩
    obtain ⟨a, ha, hc⟩ := h.fold
    have hnames : a.1.names = e.names := Expr.names_fold ha
    have hground' : a.1.GroundedBy d.mapping d.rounds := by rwa [Expr.GroundedBy, hnames]
    obtain ⟨k, hle, hk, hleast⟩ := exists_least (p := (a.1.GroundedBy d.mapping ·)) hground'
    refine ⟨a, c, ha, settle_eq_of_grounded hc (fun hnil => h.fold_eq (hnames ▸ hnil) ha) hk hle ?_,
      hv⟩
    intro s hs
    obtain rfl := List.mem_singleton.1 hs
    exact hleast

/-- Where a name comes to a constant, its definition does, and so does each name in that. -/
theorem outcome_of_mem_names {x y : String} {e : Expr} {v : Value}
    (hx : d.mapping.lookup x = some e) (h : d.outcome (.name x) = .ok (.constant v))
    (hy : y ∈ e.names) : ∃ w, d.outcome (.name y) = .ok (.constant w) := by
  obtain ⟨c, hc, -, hground⟩ := outcome_eq_constant_iff.1 h
  obtain ⟨rhs, hrhs, hnames⟩ := hground x (List.mem_singleton.2 rfl)
  cases hx.symm.trans hrhs
  cases hc with
  | name hx' hc =>
    cases hx.symm.trans hx'
    obtain ⟨c', hc'⟩ := hc.of_mem_names hy
    obtain ⟨w, hw⟩ := hc'.isConstant
    refine ⟨w, outcome_eq_constant_iff.2 ⟨c', hc', hw, fun z hz => ?_⟩⟩
    obtain rfl := List.mem_singleton.1 hz
    exact (hnames _ hy).succ

end Definitions

end PlateModel
