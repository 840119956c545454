import Mathlib.Data.List.Perm.Subperm
import Mathlib.Logic.Relation
import PlateModel.Proofs.Model.References
import PlateModel.Proofs.Resolution.Depth
import PlateModel.Proofs.Resolution.Replay
import PlateModel.Proofs.Table

/-!
# The rounds suffice where rules are not cyclic

Where no rule depends on itself, a chain of rules has each rule at most once, and one step more
leads to a datum. So replacing names ends within one round more than there are rules. Forms that are
met on the way never recur before that, because each is nearer to names without definitions than the
ones before it.

* `Mapping.Ends`: definitions end in at most so many steps from a name.
* `Definitions.ends_of_acyclic`: they end within the rounds that are made.
* `Definitions.resolve_of_acyclic`: no name with a definition is left, and more rounds come to the
  same.
-/

namespace PlateModel

/-! ## Where definitions end -/

/-- From a name, names without definitions are reached in at most so many steps, or none at all. -/
def Mapping.Ends (m : Mapping) : Nat → String → Prop
  | 0, x => m.lookup x = none
  | k + 1, x => ∀ rhs, m.lookup x = some rhs → ∀ y ∈ rhs.names, m.Ends k y

/-- Definitions end in at most so many steps from every name of an expression. -/
def Expr.EndsBy (m : Mapping) (k : Nat) (e : Expr) : Prop := ∀ y ∈ e.names, m.Ends k y

variable {m : Mapping}

theorem Mapping.Ends.succ : ∀ {k : Nat} {x : String}, m.Ends k x → m.Ends (k + 1) x
  | 0, _, h => fun rhs hrhs => by cases h.symm.trans hrhs
  | _ + 1, _, h => fun rhs hrhs y hy => (h rhs hrhs y hy).succ

theorem Mapping.Ends.mono {j k : Nat} {x : String} (hjk : j ≤ k) (h : m.Ends j x) :
    m.Ends k x := by
  induction hjk with
  | refl => exact h
  | step _ ih => exact ih.succ

namespace Expr

/-- With its names replaced, an expression is one step nearer to the end. -/
theorem endsBy_substitute {k : Nat} {e : Expr} (h : e.EndsBy m (k + 1)) :
    (e.substitute m).EndsBy m k := by
  intro z hz
  rw [names_substitute, List.mem_flatMap] at hz
  obtain ⟨y, hy, hz⟩ := hz
  cases hrhs : m.lookup y with
  | some rhs =>
    rw [hrhs] at hz
    exact h y hy rhs hrhs z hz
  | none =>
    rw [hrhs] at hz
    obtain rfl := List.mem_singleton.1 hz
    exact Mapping.Ends.mono (Nat.zero_le k) hrhs

/-- At the end there is nothing left to replace. -/
theorem substitute_of_endsBy {e : Expr} (h : e.EndsBy m 0) : e.substitute m = e := by
  have hnothing : e.substitute m = e.substitute [] := substitute_congr h
  rw [hnothing, substitute_nil]

end Expr

/-! ## Rounds -/

namespace Definitions

/-- Enough rounds go on until nothing can be replaced, if the forms that were seen before are
farther from the end. -/
theorem endsBy_settle : ∀ {n k : Nat} {seen : List Expr} {e r : Expr}, settle m n seen e = .ok r →
    e.EndsBy m k → k ≤ n → (∀ s ∈ seen, ∀ i < k, ¬ s.EndsBy m i) → r.EndsBy m 0
  | 0, k, seen, e, r, h, he, hkn, _ => by
    cases h
    obtain rfl := Nat.le_zero.1 hkn
    exact he
  | n + 1, 0, seen, e, r, h, he, _, _ => by
    rcases settle_succ h with ⟨rfl, -⟩ | ⟨-, next, hnext, hrest⟩
    · exact he
    · have hnext' : next.EndsBy m 0 := by
        rw [Expr.EndsBy, replaced_eq_ok hnext, Expr.substitute_of_endsBy he]
        exact he
      split at hrest
      · rwa [hrest]
      · exact endsBy_settle hrest hnext' (Nat.zero_le n) nofun
  | n + 1, k + 1, seen, e, r, h, he, hkn, hseen => by
    rcases settle_succ h with ⟨rfl, v, hv⟩ | ⟨-, next, hnext, hrest⟩
    · rw [Expr.EndsBy, Expr.names_of_constant? hv]
      exact nofun
    · have hnearer : next.EndsBy m k := by
        rw [Expr.EndsBy, replaced_eq_ok hnext]
        exact Expr.endsBy_substitute he
      have hfresh : ¬ seen.any next.same :=
        Expr.not_any_same (q := fun names => ∀ y ∈ names, m.Ends k y)
          (fun s hs => hseen s hs k (Nat.lt_succ_self k)) hnearer
      rw [if_neg hfresh] at hrest
      -- the next form goes on from its own distance
      obtain ⟨j, hjk, hj, hleast⟩ := exists_least (p := (next.EndsBy m ·)) hnearer
      refine endsBy_settle hrest hj (Nat.le_trans hjk (Nat.le_of_succ_le_succ hkn)) ?_
      intro s hs i hi
      rcases List.mem_cons.1 hs with rfl | hs
      · exact hleast i hi
      · exact hseen s hs i (Nat.lt_succ_of_lt (Nat.lt_of_lt_of_le hi hjk))

/-- Rounds that end where nothing can be replaced end there with more rounds to make as well. -/
theorem settle_of_endsBy {o : Option Value} : ∀ {n n' : Nat} {seen : List Expr} {e r : Expr},
    settle m n seen e = .ok r → r.EndsBy m 0 → r.constant? = .ok o → n ≤ n' →
    (∃ k, e.fold = .ok (e, k)) → e ∈ seen → settle m n' seen e = .ok r
  | 0, n', seen, e, r, h, hr, ho, _, ⟨k, hfold⟩, hmem => by
    cases h
    cases n' with
    | zero => rfl
    | succ n' =>
      have hsame : seen.any e.same := List.any_eq_true.2 ⟨e, hmem, Expr.same_refl e⟩
      simp only [settle, ho, replaced, Expr.substitute_of_endsBy hr, hfold, ok_bind, Except.map,
        hsame, if_true]
      split <;> rfl
  | n + 1, 0, _, _, _, _, _, _, hle, _, _ => absurd hle (Nat.not_succ_le_zero n)
  | n + 1, n' + 1, seen, e, r, h, hr, ho, hle, _, hmem => by
    rcases settle_succ h with ⟨rfl, v, hv⟩ | ⟨hnone, next, hnext, hrest⟩
    · simp only [settle, hv, ok_bind]
      rfl
    · simp only [settle, hnone, hnext, ok_bind]
      split at hrest
      · next hseen =>
        simp only [hseen, hrest]
        rfl
      · next hseen =>
        obtain ⟨a, ha, rfl⟩ := map_eq_ok.1 hnext
        simp only [hseen]
        exact settle_of_endsBy hrest hr ho (Nat.le_of_succ_le_succ hle) ⟨0, Expr.fold_fold ha⟩
          (List.mem_cons_self ..)

/-! ## Rules without cycles -/

variable {d : Definitions}

/-- A rule has a name in it that data do not bind and another rule defines. -/
def Depends (d : Definitions) (x y : String) : Prop :=
  ∃ rhs, d.logical.get? x = some rhs ∧ y ∈ rhs.names ∧ d.data.contains y = false ∧
    d.logical.contains y

/-- No rule depends on itself, be it by way of others. -/
def Acyclic (d : Definitions) : Prop := ∀ x, ¬ Relation.TransGen d.Depends x x

/-- Rules are not cyclic if they can be numbered so that each depends on lower ones only. -/
theorem acyclic_of_rank (rank : String → Nat) (h : ∀ x y, d.Depends x y → rank y < rank x) :
    d.Acyclic := by
  have hrank : ∀ x y, Relation.TransGen d.Depends x y → rank y < rank x := by
    intro x y hxy
    induction hxy with
    | single hxy => exact h _ _ hxy
    | tail _ hyz ih => exact Nat.lt_trans (h _ _ hyz) ih
  exact fun x hx => Nat.lt_irrefl _ (hrank x x hx)

/-- A name that is defined by a datum has no names behind it. -/
theorem names_of_data {x : String} {v : Number} {rhs : Expr} (hx : d.data.get? x = some v)
    (h : d.mapping.lookup x = some rhs) : rhs.names = [] := by
  rw [lookup_mapping, hx] at h
  cases h
  rfl

theorem lookup_mapping_eq_none {x : String} :
    d.mapping.lookup x = none ↔ d.data.get? x = none ∧ d.logical.get? x = none := by
  rw [lookup_mapping, Option.or_eq_none_iff, Option.map_eq_none_iff]

/-- There are no more names of rules than there are rules. -/
theorem length_le_of_rules {xs : List String} (hnodup : xs.Nodup)
    (h : ∀ x ∈ xs, d.logical.contains x) : xs.length ≤ d.logical.size := by
  have hsubset : xs ⊆ d.logical.keys := fun x hx => Assoc.mem_keys_iff_contains.2 (h x hx)
  simpa only [Assoc.keys, Assoc.size, List.length_map] using
    (List.subperm_of_subset hnodup hsubset).length_le

/-- On the way to a name there have been so many rules, each different from the others. -/
structure Path (d : Definitions) (path : List String) (x : String) : Prop where
  nodup : path.Nodup
  rules : ∀ z ∈ path, d.logical.contains z
  leads : ∀ z ∈ path, Relation.TransGen d.Depends z x

/-- Without cycles a way never comes back, so it can be gone on from a rule to the next one. -/
theorem Path.cons {path : List String} {x y : String} (h : d.Path path x) (hd : d.Acyclic)
    (hxy : d.Depends x y) : d.Path (x :: path) y where
  nodup := List.nodup_cons.2 ⟨fun hx => hd x (h.leads x hx), h.nodup⟩
  rules := by
    obtain ⟨rhs, hrhs, -⟩ := hxy
    exact List.forall_mem_cons.2 ⟨Assoc.contains_iff.2 ⟨rhs, hrhs⟩, h.rules⟩
  leads := List.forall_mem_cons.2 ⟨.single hxy, fun z hz => (h.leads z hz).tail hxy⟩

/-- A way to a rule has not been through all rules yet. -/
theorem Path.length_lt {path : List String} {x : String} (h : d.Path path x) (hd : d.Acyclic)
    (hx : d.logical.contains x) : path.length < d.logical.size :=
  length_le_of_rules (List.nodup_cons.2 ⟨fun hmem => hd x (h.leads x hmem), h.nodup⟩)
    (List.forall_mem_cons.2 ⟨hx, h.rules⟩)

/-- Where a name in a rule goes on to: it has no definition, or a datum, or the rule depends on
it. -/
theorem ends_or_depends {x y : String} {rhs : Expr} (hx : d.logical.get? x = some rhs)
    (hy : y ∈ rhs.names) : d.mapping.Ends 1 y ∨ d.Depends x y := by
  cases hdata : d.data.get? y with
  | some v =>
    refine .inl fun rhs' hrhs' z hz => ?_
    rw [names_of_data hdata hrhs'] at hz
    cases hz
  | none =>
    cases hlogical : d.logical.get? y with
    | none => exact .inl (Mapping.Ends.succ (lookup_mapping_eq_none.2 ⟨hdata, hlogical⟩))
    | some rhs' =>
      exact .inr ⟨rhs, hx, hy, by rw [Assoc.contains, hdata]; rfl,
        Assoc.contains_iff.2 ⟨rhs', hlogical⟩⟩

/-- From a name, only those rules are left that the way there has not been through. -/
theorem Path.ends (hd : d.Acyclic) : ∀ {n : Nat} {x : String} {path : List String},
    d.Path path x → d.rounds ≤ path.length + n → d.mapping.Ends n x
  | 0, x, path, h, hlen => absurd (length_le_of_rules h.nodup h.rules) (Nat.not_le.2 hlen)
  | n + 1, x, path, h, hlen => by
    intro rhs hrhs y hy
    cases hx : d.data.get? x with
    | some v =>
      rw [names_of_data hx hrhs] at hy
      cases hy
    | none =>
      have hrule : d.logical.get? x = some rhs := by rwa [lookup_mapping, hx] at hrhs
      have hlt := h.length_lt hd (Assoc.contains_iff.2 ⟨rhs, hrule⟩)
      rw [rounds] at hlen
      rcases ends_or_depends hrule hy with hend | hxy
      · -- a round is left for the datum
        exact hend.mono (by omega)
      · exact Path.ends hd (h.cons hd hxy) (by rw [List.length_cons, rounds]; omega)

/-- Without cycles definitions end within the rounds that are made. -/
theorem ends_of_acyclic (hd : d.Acyclic) (x : String) : d.mapping.Ends d.rounds x :=
  Path.ends hd ⟨List.nodup_nil, nofun, nofun⟩ (by rw [List.length_nil, Nat.zero_add])

end Definitions

/-! ## Outcomes -/

/-- The names of what an expression comes to. -/
def Outcome.names : Outcome → List String
  | constant _ => []
  | symbol x => [x]
  | residual e => e.names

namespace Definitions

variable {d : Definitions}

/-- What an expression without array references comes to within so many rounds; the outcome is what
it comes to within the rounds that are made. -/
def outcomeWithin (d : Definitions) (n : Nat) (e : Expr) : Except Failure Outcome := do
  let (e, _) ← e.fold
  let e ← settle d.mapping n [e] e
  match ← e.constant? with
  | some v => return .constant v
  | none =>
    match e with
    | .name x => return .symbol x
    | e => return .residual e

/-- The form that the rounds end with has the names of the outcome. -/
theorem outcomeWithin_eq_ok {n : Nat} {e : Expr} {o : Outcome} (h : d.outcomeWithin n e = .ok o) :
    ∃ a r v, e.fold = .ok a ∧ settle d.mapping n [a.1] a.1 = .ok r ∧ r.constant? = .ok v ∧
      o.names = r.names ∧
      ∀ n', settle d.mapping n' [a.1] a.1 = .ok r → d.outcomeWithin n' e = .ok o := by
  have hopen := h
  simp only [outcomeWithin, bind_eq_ok] at h
  obtain ⟨a, ha, r, hr, v, hv, h⟩ := h
  refine ⟨a, r, v, ha, hr, hv, ?_, fun n' hn' => ?_⟩
  · cases v with
    | some v =>
      cases h
      rw [Expr.names_of_constant? hv]
      rfl
    | none =>
      dsimp only at h
      split at h <;> cases h <;> rfl
  · rw [← hopen]
    simp only [outcomeWithin, ha, hr, hn', ok_bind]

mutual

/-- There is nothing to lower in an expression without array references. -/
theorem lower_of_references : ∀ {e : Expr}, e.references = [] → d.lower e = pure e
  | .literal .., _ | .name _, _ | .colon _, _ => by rw [lower]
  | .call f args l, h => by
    have hargs : Expr.referencesOfAll args = [] := h
    rw [lower, lowerAll_of_references hargs, pure_bind]
  | .range a b l, h => by
    obtain ⟨ha, hb⟩ := List.append_eq_nil_iff.1 h
    rw [lower, lower_of_references ha, pure_bind, lower_of_references hb, pure_bind]
  | .stepped a b s l, h => by
    obtain ⟨ha, h⟩ := List.append_eq_nil_iff.1 h
    obtain ⟨hb, hs⟩ := List.append_eq_nil_iff.1 h
    rw [lower, lower_of_references hs, pure_bind, lower_of_references ha, pure_bind,
      lower_of_references hb, pure_bind]
  | .array xs shape l, h => by
    have hxs : Expr.referencesOfAll xs = [] := h
    rw [lower, lowerAll_of_references hxs, pure_bind]

theorem lowerAll_of_references : ∀ {es : List Expr}, Expr.referencesOfAll es = [] →
    d.lowerAll es = pure es
  | [], _ => by rw [lowerAll]
  | e :: es, h => by
    obtain ⟨he, hes⟩ := List.append_eq_nil_iff.1 h
    rw [lowerAll, lower_of_references he, pure_bind, lowerAll_of_references hes, pure_bind]

end

theorem resolve_of_references {e : Expr} (h : e.references = []) (r : Registry) :
    d.resolve e r = (orFault (d.outcome e), r) := by
  rw [resolve, lower_of_references h, pure_bind, run_lift]

/-- Where rules are not cyclic, nothing that is defined is left in what an expression without array
references comes to, and more rounds than are made come to the same. Data and rules for one name do
no harm. -/
theorem resolve_of_acyclic (hd : d.Acyclic) {e : Expr} (he : e.references = []) {r r' : Registry}
    {o : Outcome} (h : d.resolve e r = (.ok o, r')) :
    r' = r ∧ (∀ x ∈ o.names, d.data.get? x = none ∧ d.logical.get? x = none) ∧
      ∀ n ≥ d.rounds, d.outcomeWithin n e = .ok o := by
  rw [resolve_of_references he, Prod.mk.injEq, orFault_eq_ok] at h
  obtain ⟨a, c, v, ha, hc, hv, hnames, hmore⟩ := outcomeWithin_eq_ok (n := d.rounds) h.1
  have hend : c.EndsBy d.mapping 0 := by
    obtain ⟨k, hk, hends, hleast⟩ :=
      exists_least (p := (a.1.EndsBy d.mapping ·)) fun y _ => ends_of_acyclic hd y
    refine endsBy_settle hc hends hk fun s hs => ?_
    obtain rfl := List.mem_singleton.1 hs
    exact hleast
  refine ⟨h.2.symm, fun x hx => ?_, fun n hn => hmore n ?_⟩
  · rw [hnames] at hx
    exact lookup_mapping_eq_none.1 (hend x hx)
  · exact settle_of_endsBy hc hend hv hn ⟨0, Expr.fold_fold ha⟩ (List.mem_singleton.2 rfl)

/-- A chain through all rules that ends with a datum. -/
def chained : Definitions where
  data := ⟨[("n", .int 3)]⟩
  logical := ⟨[("x", .name "y"), ("z", .name "n"), ("y", .name "z")]⟩

theorem acyclic_chained : chained.Acyclic := by
  let rank : String → Nat := fun x => if x = "x" then 2 else if x = "y" then 1 else 0
  refine acyclic_of_rank rank fun x y ⟨rhs, hrhs, hy, hfree, _⟩ => ?_
  have hmem := Assoc.mem_of_get? hrhs
  simp only [chained, List.mem_cons, List.not_mem_nil, or_false, Prod.mk.injEq] at hmem
  rcases hmem with ⟨rfl, rfl⟩ | ⟨rfl, rfl⟩ | ⟨rfl, rfl⟩ <;> obtain rfl := List.mem_singleton.1 hy
  · decide
  · cases hfree
  · decide

/-- At the end of the chain `x + w` has come to `3 + w`. -/
theorem resolve_of_acyclic_chained :
    chained.resolve (.call "+" [.name "x", .name "w"] none) Registry.empty =
        (.ok (.residual (.call "+" [.ofNumber (.int 3), .name "w"] none)), Registry.empty) ∧
      (∀ x ∈ ["w"], chained.data.get? x = none ∧ chained.logical.get? x = none) ∧
      ∀ n ≥ 4, chained.outcomeWithin n (.call "+" [.name "x", .name "w"] none) =
        .ok (.residual (.call "+" [.ofNumber (.int 3), .name "w"] none)) := by
  have h : chained.resolve (.call "+" [.name "x", .name "w"] none) Registry.empty =
      (.ok (.residual (.call "+" [.ofNumber (.int 3), .name "w"] none)), Registry.empty) := rfl
  obtain ⟨-, hnames, hmore⟩ := resolve_of_acyclic acyclic_chained rfl h
  exact ⟨h, hnames, hmore⟩

/-- With one round less the chain is not followed to its end. -/
example : chained.outcomeWithin 3 (.name "x") = .ok (.symbol "n") := rfl

end Definitions

end PlateModel
