import PlateModel.Emission.Emit
import PlateModel.Proofs.Resolution.Order
import PlateModel.Proofs.State.Edits

/-!
# What is emitted

A consistent state is emitted as exactly one node for each name that data or a rule define. Whether
a stochastic rule is an observation is asked of partial evaluation; the answer is yes if and only if
data bind the name.

* `Definitions.outcome_name_of_data`, `Definitions.outcome_name_of_free`: what a single name comes
  to.
* `State.Describes`: the nodes that a state should have; `State.describes_of_emit`: it has them.
-/

namespace PlateModel

/-! ## Names of parents -/

theorem firstAppearances_eq (xs : List String) : firstAppearances xs = xs.eraseDups := by
  have loop (xs : List String) : ∀ seen : List String,
      (xs.foldl (fun seen x => if seen.contains x then seen else x :: seen) seen).reverse =
        List.eraseDupsBy.loop (· == ·) xs seen := by
    induction xs with
    | nil => exact fun _ => rfl
    | cons x xs ih =>
      intro seen
      rw [List.foldl_cons, ih, List.eraseDupsBy.loop]
      have hany : seen.any (x == ·) = seen.contains x := by simp [List.any_beq]
      rw [hany]
      cases seen.contains x <;> rfl
  exact loop xs []

theorem nodup_eraseDups {α : Type} [DecidableEq α] : ∀ xs : List α, xs.eraseDups.Nodup
  | [] => .nil
  | x :: xs => by
    rw [List.eraseDups_cons, List.nodup_cons, List.mem_eraseDups, List.mem_filter]
    exact ⟨by simp, nodup_eraseDups _⟩
termination_by xs => xs.length
decreasing_by exact Nat.lt_succ_of_le (List.length_filter_le ..)

/-! ## What a name comes to -/

namespace Definitions

variable {d : Definitions} {x : String}

/-- A name that data bind comes to its datum. -/
theorem outcome_name_of_data {v : Number} (h : d.data.get? x = some v) :
    d.outcome (.name x) = .ok (.constant (.number v)) := by
  have hlookup : d.mapping.lookup x = some (.ofNumber v) := by rw [lookup_mapping, h]; rfl
  have hreplaced : replaced d.mapping (.name x) = .ok (.ofNumber v) := by
    rw [replaced, Expr.substitute, hlookup]
    rfl
  have hsettle : settle d.mapping d.rounds [.name x] (.name x) = .ok (.ofNumber v) := by
    rw [rounds, settle, hreplaced]
    cases d.logical.size <;> rfl
  show (settle d.mapping d.rounds [.name x] (.name x) >>= _) = _
  rw [hsettle]
  rfl

/-- A name that is not defined comes to itself. -/
theorem outcome_name_of_free (hd : d.data.get? x = none) (hl : d.logical.get? x = none) :
    d.outcome (.name x) = .ok (.symbol x) := by
  have hlookup : d.mapping.lookup x = none := by rw [lookup_mapping, hd, hl]; rfl
  have hreplaced : replaced d.mapping (.name x) = .ok (.name x) := by
    rw [replaced, Expr.substitute, hlookup]
    rfl
  have hsettle : settle d.mapping d.rounds [.name x] (.name x) = .ok (.name x) := by
    rw [rounds, settle, hreplaced]
    simp [Expr.constant?, Expr.same, bind, Except.bind]
    rfl
  show (settle d.mapping d.rounds [.name x] (.name x) >>= _) = _
  rw [hsettle]
  rfl

end Definitions

namespace State

variable {s : State}

/-! ## The nodes one after the other -/

section Each

variable {α : Type} {node : String → α → Except Fault Node}

/-- A node for each entry is added at the end, if the keys are new. -/
theorem emitEach_eq_ok : ∀ {l : List (String × α)} {t t' : Assoc Node},
    emitEach node t l = .ok t' → (t.keys ++ l.map (·.1)).Nodup →
    t'.keys = t.keys ++ l.map (·.1) ∧ ∀ x n, t'.get? x = some n →
      t.get? x = some n ∨ ∃ a, (x, a) ∈ l ∧ node x a = .ok n
  | [], t, t', h, _ => by
    cases h
    exact ⟨(List.append_nil _).symm, fun x n hx => .inl hx⟩
  | (y, a) :: l, t, t', h, hnodup => by
    obtain ⟨m, hm, h⟩ := bind_eq_ok.1 h
    have hy : y ∉ t.keys := fun hy =>
      (List.nodup_append.1 hnodup).2.2 y hy y (List.mem_cons_self ..) rfl
    have hkeys : (t.put y m).keys = t.keys ++ [y] := by rw [Assoc.keys_put, if_neg hy]
    have happend : (t.put y m).keys ++ l.map (·.1) = t.keys ++ ((y, a) :: l).map (·.1) := by
      rw [hkeys, List.append_assoc]
      rfl
    obtain ⟨hkeys', hget⟩ := emitEach_eq_ok h (happend ▸ hnodup)
    refine ⟨hkeys'.trans happend, fun x n hx => ?_⟩
    rcases hget x n hx with hx | ⟨b, hb, hn⟩
    · rw [Assoc.get?_put] at hx
      split at hx
      · next hxy =>
        cases hx
        exact .inr ⟨a, hxy ▸ List.mem_cons_self .., hxy ▸ hm⟩
      · exact .inl hx
    · exact .inr ⟨b, List.mem_cons_of_mem _ hb, hn⟩

end Each

/-- Where the node of a name comes from. -/
inductive NodeOf (s : State) (x : String) (n : Node) : Prop
  | data {v : Number} (hdata : s.data.get? x = some v) (hfree : s.stochastic.contains x = false)
      (h : dataNode v = .ok n)
  | logical {rhs : Expr} (hrule : s.logical.get? x = some rhs) (h : s.logicalNode x rhs = .ok n)
  | stochastic {g : Generator} (hrule : s.stochastic.get? x = some g)
      (h : s.stochasticNode x g = .ok n)

/-- The names that data bind and that have no stochastic rule. -/
def freeKeys (s : State) : List String := s.data.keys.filter fun x => !s.stochastic.contains x

theorem map_fst_free (s : State) :
    (s.data.entries.filter fun (x, _) => !s.stochastic.contains x).map (·.1) = s.freeKeys := by
  rw [freeKeys, Assoc.keys, List.filter_map]
  rfl

theorem Consistent.nodup (hs : s.Consistent) :
    (s.freeKeys ++ s.logical.keys ++ s.stochastic.keys).Nodup := by
  refine List.nodup_append.2 ⟨List.nodup_append.2 ⟨hs.dataKeys.filter _, hs.logicalKeys, ?_⟩,
    hs.stochasticKeys, ?_⟩
  · rintro x hx _ hx' rfl
    have hdata := Assoc.mem_keys_iff_contains.1 (List.mem_filter.1 hx).1
    have hlogical := hs.unbound hdata
    rw [Assoc.mem_keys_iff_contains.1 hx'] at hlogical
    cases hlogical
  · rintro x hx _ hx' rfl
    have hstochastic := Assoc.mem_keys_iff_contains.1 hx'
    rcases List.mem_append.1 hx with hx | hx
    · have hfree := (List.mem_filter.1 hx).2
      rw [hstochastic] at hfree
      cases hfree
    · have hkind := hs.kinds (Assoc.mem_keys_iff_contains.1 hx)
      rw [hstochastic] at hkind
      cases hkind

/-- The nodes are those of the data, of the logical and of the stochastic rules, in this order. -/
theorem emit_eq_ok (hs : s.Consistent) {ns : Assoc Node} (h : s.emit = .ok ns) :
    ns.keys = s.freeKeys ++ s.logical.keys ++ s.stochastic.keys ∧
      ∀ x n, ns.get? x = some n → s.NodeOf x n := by
  obtain ⟨t, ht, h⟩ := bind_eq_ok.1 h
  obtain ⟨u, hu, h⟩ := bind_eq_ok.1 h
  have hnodup := hs.nodup
  have hnodup' := (List.nodup_append.1 hnodup).1
  rw [← map_fst_free] at hnodup hnodup'
  obtain ⟨hkt, hgt⟩ := emitEach_eq_ok ht (List.nodup_append.1 hnodup').1
  replace hkt : t.keys = s.freeKeys := hkt.trans (map_fst_free s)
  rw [map_fst_free] at hnodup hnodup'
  obtain ⟨hku, hgu⟩ := emitEach_eq_ok hu (hkt ▸ hnodup')
  replace hku : u.keys = s.freeKeys ++ s.logical.keys := hku.trans (hkt ▸ rfl)
  obtain ⟨hkn, hgn⟩ := emitEach_eq_ok h (hku ▸ hnodup)
  refine ⟨hkn.trans (hku ▸ rfl), fun x n hx => ?_⟩
  rcases hgn x n hx with hx | ⟨g, hg, hn⟩
  · rcases hgu x n hx with hx | ⟨rhs, hrhs, hn⟩
    · rcases hgt x n hx with hx | ⟨v, hv, hn⟩
      · cases hx
      · obtain ⟨hv, hfree⟩ := List.mem_filter.1 hv
        exact .data (Assoc.get?_of_mem hs.dataKeys hv) (by simpa using hfree) hn
    · exact .logical (Assoc.get?_of_mem hs.logicalKeys hrhs) hn
  · exact .stochastic (Assoc.get?_of_mem hs.stochasticKeys hg) hn

/-! ## What the nodes say -/

/-- The expression that a state has for a name: that of its rule, or the datum. -/
def stored? (s : State) (x : String) : Option Expr :=
  match s.stochastic.get? x with
  | some g => some g.expression
  | none => (s.logical.get? x).or ((s.data.get? x).map .ofNumber)

/-- What the node of a name says: its kind, whether the name has a stochastic rule and a datum; its
default, if it is an observation, the datum; its parents, the names of the expression that is stored
for the name. -/
structure NodeFor (s : State) (x : String) (n : Node) : Prop where
  observation : n.kind = .observation ↔ s.data.contains x ∧ s.stochastic.contains x
  stochastic : n.kind = .stochastic ↔ s.stochastic.contains x ∧ ¬ s.data.contains x
  logical : n.kind = .logical ↔ ¬ s.stochastic.contains x
  default : n.kind = .observation → ∃ v, s.data.get? x = some v ∧ v.toFloat? = some n.default
  stored : s.stored? x = some n.generator.expression
  parents : n.parents = n.generator.expression.names.eraseDups

/-- There is one node for each name that data or a rule define, and none for other names. -/
structure Describes (s : State) (ns : Assoc Node) : Prop where
  nodup : ns.keys.Nodup
  mem_keys : ∀ x, x ∈ ns.keys ↔ s.data.contains x ∨ s.logical.contains x ∨ s.stochastic.contains x
  node : ∀ ⦃x n⦄, ns.get? x = some n → s.NodeFor x n

theorem asDefault_eq_ok {v : Number} {y : Float} (h : v.asDefault = .ok y) :
    v.toFloat? = some y := by
  unfold Number.asDefault at h
  split at h
  · next hz => cases h; exact hz
  · cases h

/-- Partial evaluation gives a name the default that data bind it to. -/
theorem default?_of_data {x : String} {v : Number} {o : Option Float}
    (hv : s.data.get? x = some v) (h : s.default? x = .ok o) :
    ∃ y, v.toFloat? = some y ∧ o = some y := by
  obtain ⟨outcome, houtcome, h⟩ := bind_eq_ok.1 h
  rw [Definitions.outcome_name_of_data hv] at houtcome
  cases houtcome
  obtain ⟨y, hy, h⟩ := bind_eq_ok.1 h
  cases h
  exact ⟨y, asDefault_eq_ok hy, rfl⟩

/-- Partial evaluation gives a name that is not defined no default. -/
theorem default?_of_free {x : String} {o : Option Float} (hd : s.data.get? x = none)
    (hl : s.logical.get? x = none) (h : s.default? x = .ok o) : o = none := by
  obtain ⟨outcome, houtcome, h⟩ := bind_eq_ok.1 h
  rw [Definitions.outcome_name_of_free hd hl] at houtcome
  cases houtcome
  cases h
  rfl

theorem parents_of_ofExpr {e : Expr} {g : Generator} (h : Generator.ofExpr e = .ok g) :
    g.expression = e ∧ g.parameters = g.expression.names.eraseDups := by
  obtain ⟨_, -, rfl⟩ := map_eq_ok.1 h
  exact ⟨rfl, firstAppearances_eq e.names⟩

theorem NodeOf.nodeFor (hs : s.Consistent) {x : String} {n : Node} (h : s.NodeOf x n) :
    s.NodeFor x n := by
  cases h with
  | @data v hdata hfree h =>
    obtain ⟨y, hy, h⟩ := bind_eq_ok.1 h
    obtain ⟨g, hg, h⟩ := bind_eq_ok.1 h
    cases h
    obtain ⟨hexpression, hparents⟩ := parents_of_ofExpr hg
    have hlogical := hs.unbound (Assoc.contains_iff.2 ⟨v, hdata⟩)
    have hstored : s.stored? x = some (.ofNumber v) := by
      rw [stored?, Assoc.get?_eq_none hfree, Assoc.get?_eq_none hlogical, hdata]
      rfl
    exact ⟨by simp [hfree], by simp [hfree], by simp [hfree], by simp, hexpression ▸ hstored,
      hparents⟩
  | @logical rhs hrule h =>
    obtain ⟨o, -, h⟩ := bind_eq_ok.1 h
    obtain ⟨g, hg, h⟩ := bind_eq_ok.1 h
    cases h
    obtain ⟨hexpression, hparents⟩ := parents_of_ofExpr hg
    have hfree := hs.kinds (Assoc.contains_iff.2 ⟨rhs, hrule⟩)
    have hstored : s.stored? x = some rhs := by
      rw [stored?, Assoc.get?_eq_none hfree, hrule]
      rfl
    exact ⟨by simp [hfree], by simp [hfree], by simp [hfree], by simp, hexpression ▸ hstored,
      hparents⟩
  | @stochastic g hrule h =>
    obtain ⟨o, ho, h⟩ := bind_eq_ok.1 h
    have hcontains : s.stochastic.contains x := Assoc.contains_iff.2 ⟨g, hrule⟩
    have hstored : s.stored? x = some g.expression := by rw [stored?, hrule]
    obtain ⟨-, hparents⟩ := parents_of_ofExpr (hs.compiled hrule)
    cases hdata : s.data.get? x with
    | some v =>
      have hbound : s.data.contains x := Assoc.contains_iff.2 ⟨v, hdata⟩
      obtain ⟨y, hy, rfl⟩ := default?_of_data hdata ho
      cases h
      exact ⟨by simp [hcontains, hbound], by simp [hcontains, hbound], by simp [hcontains],
        fun _ => ⟨v, hdata, hy⟩, hstored, hparents⟩
    | none =>
      have hfree : s.data.contains x = false := by simp [Assoc.contains, hdata]
      have hlogical : s.logical.contains x = false := by
        refine Bool.not_eq_true _ ▸ fun hlogical => ?_
        rw [hs.kinds hlogical] at hcontains
        cases hcontains
      obtain rfl := default?_of_free hdata (Assoc.get?_eq_none hlogical) ho
      cases h
      exact ⟨by simp [hcontains, hfree], by simp [hcontains, hfree], by simp [hcontains],
        by simp, hstored, hparents⟩

/-- The nodes that are emitted describe the state. -/
theorem describes_of_emit (hs : s.Consistent) {ns : Assoc Node} (h : s.emit = .ok ns) :
    s.Describes ns := by
  obtain ⟨hkeys, hnode⟩ := emit_eq_ok hs h
  refine ⟨hkeys ▸ hs.nodup, fun x => ?_, fun x n hn => (hnode x n hn).nodeFor hs⟩
  rw [hkeys]
  simp only [freeKeys, List.mem_append, List.mem_filter, Assoc.mem_keys_iff_contains]
  cases s.stochastic.contains x <;> simp

end State

end PlateModel
