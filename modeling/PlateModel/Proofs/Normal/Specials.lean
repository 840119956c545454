import PlateModel.Evaluation.Generator
import PlateModel.Proofs.Normal.SingleCells
import PlateModel.Proofs.Resolution.Depth
import PlateModel.Proofs.Resolution.Replay

/-!
# Calls of special functions in rules

The expansion of a special function puts a distribution as it is written into the call. Should the
distribution call special functions itself, then these calls are never expanded, nothing else takes
them away, and no rule with such a call can be compiled. So in a rule that is compiled, every call
of a special function has become a call with a distribution that calls none.

* `Expr.specials`: the special functions that an expression calls.
* `specials_of_lower`, `specials_of_checkEvaluable`: lowering keeps them, compiled rules have none.
* `Expr.Mirrors`: a rule is what a right-hand side says, with its special functions expanded.
* `mirrors_of_lower`: so it is with what is validated, expanded and lowered.
-/

namespace PlateModel

/-- A special function means nothing to evaluation. -/
theorem SpecialFunction.of?_eq_none {f : String} {g : SpecialFunction}
    (h : SpecialFunction.ofName? f = some g) (n : Nat) : Callee.of? f n = none := by
  have hname : g.name = f := by simpa using List.find?_some h
  have hoperator : Operator.of? g.name n = none := by
    unfold Operator.of?
    split
    · cases g <;> rfl
    · split
      · cases g <;> rfl
      · rfl
  have hfamily : Family.ofName? g.name = none := by cases g <;> rfl
  have hfunction : Function.ofName? g.name = none := by cases g <;> rfl
  rw [← hname, Callee.of?, hoperator, hfamily, hfunction]
  rfl

namespace Expr

mutual

/-- The special functions that an expression calls. -/
def specials : Expr → List SpecialFunction
  | literal .. | name _ | colon _ => []
  | index base is _ => specials base ++ specialsOfAll is
  | call f args _ => (SpecialFunction.ofName? f).toList ++ specialsOfAll args
  | range a b _ => specials a ++ specials b
  | stepped a b s _ => specials a ++ (specials b ++ specials s)
  | array xs _ _ => specialsOfAll xs

/-- The special functions that some expressions call. -/
def specialsOfAll : List Expr → List SpecialFunction
  | [] => []
  | x :: xs => specials x ++ specialsOfAll xs

end

theorem specialsOfAll_eq_nil {es : List Expr} :
    specialsOfAll es = [] ↔ ∀ e ∈ es, e.specials = [] := by
  induction es with
  | nil => simp [specialsOfAll]
  | cons e es ih => simp only [specialsOfAll, List.append_eq_nil_iff, ih, List.forall_mem_cons]

/-! ## What keeps them -/

section Substitution

variable {m : Mapping}

mutual

/-- Literals in the place of names bring no calls. -/
theorem specials_substitute (hm : m.Literal) : ∀ e : Expr, (e.substitute m).specials = e.specials
  | literal .. | colon _ => rfl
  | name x => by
    rcases substitute_name hm x with h | ⟨v, k, h⟩
    · rw [h]
    · rw [h]
      rfl
  | index base is _ => by
    rw [substitute, specials, specials, specials_substitute hm base,
      specialsOfAll_substituteAll hm is]
  | call _ args _ => by rw [substitute, specials, specials, specialsOfAll_substituteAll hm args]
  | range a b _ => by
    rw [substitute, specials, specials, specials_substitute hm a, specials_substitute hm b]
  | stepped a b s _ => by
    rw [substitute, specials, specials, specials_substitute hm a, specials_substitute hm b,
      specials_substitute hm s]
  | array xs _ _ => specialsOfAll_substituteAll hm xs

theorem specialsOfAll_substituteAll (hm : m.Literal) : ∀ es : List Expr,
    specialsOfAll (substituteAll m es) = specialsOfAll es
  | [] => rfl
  | e :: es => by
    rw [substituteAll, specialsOfAll, specialsOfAll, specials_substitute hm e,
      specialsOfAll_substituteAll hm es]

end

end Substitution

/-- A call that folds to a constant is one of a known function. -/
theorem ofName?_of_foldCall {f : String} {args : List Expr} {l : Option Location} {c : Expr}
    {n : Nat} {v : Value} (h : foldCall f args l = .ok (c, n)) (hv : c.constant? = .ok (some v)) :
    SpecialFunction.ofName? f = none := by
  cases hf : SpecialFunction.ofName? f with
  | none => rfl
  | some g =>
    have hcall : c = call f args l := by
      unfold foldCall at h
      rw [SpecialFunction.of?_eq_none hf] at h
      split at h <;> cases h <;> rfl
    rw [hcall] at hv
    cases hv

mutual

/-- What comes to a constant calls no special function. -/
theorem specials_of_comes {m : Mapping} {e c : Expr} : Comes m e c → e.specials = []
  | .literal .. | .name .. => rfl
  | .call h hc hv => by
    rw [specials, ofName?_of_foldCall hc hv, specials_of_comesAll h]
    rfl
  | .array h _ => specials_of_comesAll h

theorem specials_of_comesAll {m : Mapping} {es cs : List Expr} : ComesAll m es cs →
    specialsOfAll es = []
  | .nil => rfl
  | .cons h hs => by
    rw [specialsOfAll, specials_of_comes h, specials_of_comesAll hs]
    rfl

end

theorem specials_toExpr (ref : Reference) (l : Option Location) : (ref.toExpr l).specials = [] := by
  cases ref with
  | one c => rfl
  | block shape cells =>
    refine specialsOfAll_eq_nil.2 fun e he => ?_
    obtain ⟨c, -, rfl⟩ := List.mem_map.1 he
    rfl

section Lowering

open Definitions

variable {d : Definitions}

/-- An index that comes to an integer calls no special function. -/
theorem specials_of_integer {written lowered : Expr} {i : Int}
    (h : d.integer written lowered = .ok i) : lowered.specials = [] := by
  obtain ⟨v, hv, -⟩ := integer_eq_ok.1 h
  obtain ⟨c, hc, -⟩ := outcome_eq_constant_iff.1 hv
  exact specials_of_comes hc

theorem base_of_arrayName {base : Expr} {is : List Expr} {l : Option Location} {array : String}
    (h : arrayName base is l = .ok array) : base = .name array := by
  unfold arrayName at h
  split at h <;> cases h
  rfl

mutual

/-- Lowering keeps the calls of special functions: at index positions there are none. -/
theorem specials_of_lower : ∀ {e e' : Expr} {r r' : Registry}, d.lower e r = (.ok e', r') →
    e'.specials = e.specials
  | literal .., _, _, _, h | name _, _, _, _, h | colon _, _, _, _, h => by
    rw [lower] at h
    cases h
    rfl
  | index base is l, _, _, _, h => by
    rw [lower] at h
    obtain ⟨array, _, hbase, h⟩ := run_bind_eq_ok.1 h
    obtain ⟨js, _, hjs, h⟩ := run_bind_eq_ok.1 h
    obtain ⟨ref, _, -, h⟩ := run_bind_eq_ok.1 h
    obtain ⟨rfl, -⟩ := run_pure_eq_ok.1 h
    rw [specials_toExpr, specials, base_of_arrayName (congrArg Prod.fst hbase),
      specials_of_indices hjs]
    rfl
  | call f args l, _, _, _, h => by
    rw [lower] at h
    obtain ⟨args', _, hargs, h⟩ := run_bind_eq_ok.1 h
    obtain ⟨rfl, -⟩ := run_pure_eq_ok.1 h
    rw [specials, specials, specialsOfAll_of_lowerAll hargs]
  | range a b l, _, _, _, h => by
    rw [lower] at h
    obtain ⟨a', _, ha, h⟩ := run_bind_eq_ok.1 h
    obtain ⟨b', _, hb, h⟩ := run_bind_eq_ok.1 h
    obtain ⟨rfl, -⟩ := run_pure_eq_ok.1 h
    rw [specials, specials, specials_of_lower ha, specials_of_lower hb]
  | stepped a b s l, _, _, _, h => by
    rw [lower] at h
    obtain ⟨s', _, hs, h⟩ := run_bind_eq_ok.1 h
    obtain ⟨a', _, ha, h⟩ := run_bind_eq_ok.1 h
    obtain ⟨b', _, hb, h⟩ := run_bind_eq_ok.1 h
    obtain ⟨rfl, -⟩ := run_pure_eq_ok.1 h
    rw [specials, specials, specials_of_lower ha, specials_of_lower hb, specials_of_lower hs]
  | array xs shape l, _, _, _, h => by
    rw [lower] at h
    obtain ⟨xs', _, hxs, h⟩ := run_bind_eq_ok.1 h
    obtain ⟨rfl, -⟩ := run_pure_eq_ok.1 h
    exact specialsOfAll_of_lowerAll hxs

theorem specialsOfAll_of_lowerAll : ∀ {es es' : List Expr} {r r' : Registry},
    d.lowerAll es r = (.ok es', r') → specialsOfAll es' = specialsOfAll es
  | [], _, _, _, h => by
    rw [lowerAll] at h
    cases h
    rfl
  | e :: es, _, _, _, h => by
    rw [lowerAll] at h
    obtain ⟨e', _, he, h⟩ := run_bind_eq_ok.1 h
    obtain ⟨es', _, hes, h⟩ := run_bind_eq_ok.1 h
    obtain ⟨rfl, -⟩ := run_pure_eq_ok.1 h
    rw [specialsOfAll, specialsOfAll, specials_of_lower he, specialsOfAll_of_lowerAll hes]

theorem specials_of_indices : ∀ {is : List Expr} {js : List Index} {r r' : Registry},
    d.indices is r = (.ok js, r') → specialsOfAll is = []
  | [], _, _, _, _ => rfl
  | .colon _ :: rest, _, _, _, h => by
    rw [indices] at h
    obtain ⟨js, _, hjs, -⟩ := run_bind_eq_ok.1 h
    rw [specialsOfAll, specials_of_indices hjs]
    rfl
  | .stepped .. :: _, _, _, _, h => by
    rw [indices] at h
    cases h
  | .range a b _ :: rest, _, _, _, h => by
    rw [indices] at h
    obtain ⟨a', _, ha, h⟩ := run_bind_eq_ok.1 h
    obtain ⟨i, _, hi, h⟩ := run_bind_eq_ok.1 h
    obtain ⟨b', _, hb, h⟩ := run_bind_eq_ok.1 h
    obtain ⟨j, _, hj, h⟩ := run_bind_eq_ok.1 h
    obtain ⟨js, _, hjs, -⟩ := run_bind_eq_ok.1 h
    rw [specialsOfAll, specials, ← specials_of_lower ha, ← specials_of_lower hb,
      specials_of_integer (congrArg Prod.fst hi), specials_of_integer (congrArg Prod.fst hj),
      specials_of_indices hjs]
    rfl
  | .literal v k :: rest, _, _, _, h | .name x :: rest, _, _, _, h
  | .index base is l :: rest, _, _, _, h | .call f args l :: rest, _, _, _, h
  | .array xs shape l :: rest, _, _, _, h => by
    rw [indices] at h
    · obtain ⟨e', _, he, h⟩ := run_bind_eq_ok.1 h
      obtain ⟨i, _, hi, h⟩ := run_bind_eq_ok.1 h
      obtain ⟨js, _, hjs, -⟩ := run_bind_eq_ok.1 h
      rw [specialsOfAll, ← specials_of_lower he, specials_of_integer (congrArg Prod.fst hi),
        specials_of_indices hjs]
      rfl
    all_goals nofun

end

end Lowering

mutual

/-- An expression that can be compiled calls no special function. -/
theorem specials_of_checkEvaluable : ∀ {e : Expr}, e.checkEvaluable = .ok () → e.specials = []
  | literal .., _ | name _, _ => rfl
  | index .., h | range .., h | stepped .., h | colon _, h => by cases h
  | call f args l, h => by
    rw [checkEvaluable] at h
    split at h
    · cases h
    · next hargs =>
      split at h
      · next hknown =>
        rw [specials, specialsOfAll_of_checkAllEvaluable hargs]
        cases hf : SpecialFunction.ofName? f with
        | none => rfl
        | some g =>
          rw [SpecialFunction.of?_eq_none hf] at hknown
          cases hknown
      · cases h
  | array xs _ _, h => specialsOfAll_of_checkAllEvaluable h

theorem specialsOfAll_of_checkAllEvaluable : ∀ {es : List Expr}, checkAllEvaluable es = .ok () →
    specialsOfAll es = []
  | [], _ => rfl
  | e :: es, h => by
    rw [checkAllEvaluable] at h
    split at h
    · cases h
    · next he =>
      rw [specialsOfAll, specials_of_checkEvaluable he, specialsOfAll_of_checkAllEvaluable h]
      rfl

end

section Expansion

variable {samples : Samples}

mutual

/-- Where no special function is called, there is nothing to expand. -/
theorem expandSpecial_of_specials : ∀ {e : Expr}, e.specials = [] →
    e.expandSpecial samples = .ok e
  | literal .., _ | name _, _ | colon _, _ => rfl
  | index base is l, h => by
    obtain ⟨hbase, his⟩ := List.append_eq_nil_iff.1 h
    rw [expandSpecial, expandSpecial_of_specials hbase, expandSpecialAll_of_specials his]
    rfl
  | call f args l, h => by
    obtain ⟨hf, hargs⟩ := List.append_eq_nil_iff.1 h
    rw [expandSpecial, expandSpecialAll_of_specials hargs, ok_bind, expandCall]
    exact Option.toList_eq_nil_iff.1 hf
  | range a b l, h => by
    obtain ⟨ha, hb⟩ := List.append_eq_nil_iff.1 h
    rw [expandSpecial, expandSpecial_of_specials ha, expandSpecial_of_specials hb]
    rfl
  | stepped a b s l, h => by
    obtain ⟨ha, h⟩ := List.append_eq_nil_iff.1 h
    obtain ⟨hb, hs⟩ := List.append_eq_nil_iff.1 h
    rw [expandSpecial, expandSpecial_of_specials ha, expandSpecial_of_specials hb,
      expandSpecial_of_specials hs]
    rfl
  | array xs shape l, h => by
    rw [expandSpecial, expandSpecialAll_of_specials h]
    rfl

theorem expandSpecialAll_of_specials : ∀ {es : List Expr}, specialsOfAll es = [] →
    expandSpecialAll samples es = .ok es
  | [], _ => rfl
  | e :: es, h => by
    obtain ⟨he, hes⟩ := List.append_eq_nil_iff.1 h
    rw [expandSpecialAll, expandSpecial_of_specials he, expandSpecialAll_of_specials hes]
    rfl

end

end Expansion

/-! ## Rules -/

/-- A rule is what a right-hand side says, with names replaced and its special functions expanded.
Where they are about the variable `s`, what stands for it has a property. -/
inductive Mirrors (env : Mapping) (s : String) (P : Expr → Prop) : Expr → Expr → Prop
  | literal (v : Number) (k : Nat) : Mirrors env s P (.literal v k) (.literal v k)
  | name (x : String) : Mirrors env s P (.name x) ((Expr.name x).substitute env)
  /-- A reference stands for a cell, or for an array of cells. -/
  | index {base : Expr} {is : List Expr} {l : Option Location} (ref : Reference) :
    Mirrors env s P (.index base is l) (ref.toExpr l)
  | call {f : String} {args args' : List Expr} {l : Option Location}
    (hf : SpecialFunction.ofName? f = none) (hargs : List.Forall₂ (Mirrors env s P) args args') :
    Mirrors env s P (.call f args l) (.call f args' l)
  | special {f : String} {g : SpecialFunction} {x value distribution value' e : Expr}
    {l : Option Location} (hf : SpecialFunction.ofName? f = some g)
    (hx : x = .name s → P distribution) (hvalue : Mirrors env s P value value')
    (he : e = g.expansion distribution value' l) : Mirrors env s P (.call f [x, value] l) e
  | array {xs xs' : List Expr} {shape : List Int} {l : Option Location}
    (hxs : List.Forall₂ (Mirrors env s P) xs xs') :
    Mirrors env s P (.array xs shape l) (.array xs' shape l)

/-- What a call of a special function has become. -/
theorem Mirrors.of_special {env : Mapping} {s f : String} {P : Expr → Prop} {x value e : Expr}
    {l : Option Location} {g : SpecialFunction} (h : (Expr.call f [x, value] l).Mirrors env s P e)
    (hf : SpecialFunction.ofName? f = some g) : ∃ distribution value',
      e = g.expansion distribution value' l ∧ (x = .name s → P distribution) ∧
        value.Mirrors env s P value' := by
  cases h with
  | call hnone => cases hf.symm.trans hnone
  | special hsome hx hvalue he =>
    obtain rfl := Option.some.inj (hf.symm.trans hsome)
    exact ⟨_, _, he, hx, hvalue⟩

theorem expandCall_eq_ok {samples : Samples} {f : String} {args : List Expr} {l : Option Location}
    {e : Expr} (h : expandCall samples f args l = .ok e) :
    (SpecialFunction.ofName? f = none ∧ e = .call f args l) ∨
      ∃ g x value distribution, SpecialFunction.ofName? f = some g ∧ args = [x, value] ∧
        samples.distribution g x l = .ok distribution ∧ e = g.expansion distribution value l := by
  unfold expandCall at h
  split at h
  · next hf =>
    cases h
    exact .inl ⟨hf, rfl⟩
  · next g x value hf =>
    obtain ⟨distribution, hd, h⟩ := bind_eq_ok.1 h
    cases h
    exact .inr ⟨g, x, value, distribution, hf, rfl, hd, rfl⟩
  · cases h

theorem substitute_expansion {env : Mapping} (g : SpecialFunction) (distribution value : Expr)
    (l : Option Location) : (g.expansion distribution value l).substitute env =
      g.expansion (distribution.substitute env) (value.substitute env) l := by
  cases g <;> rfl

section Lowered

open Definitions

variable {d : Definitions} {R : Registry}

theorem lower_call_eq_ok {f : String} {args : List Expr} {l : Option Location} {e : Expr}
    {r r' : Registry} (h : d.lower (.call f args l) r = (.ok e, r')) :
    ∃ args', d.lowerAll args r = (.ok args', r') ∧ e = .call f args' l := by
  rw [lower] at h
  obtain ⟨args', _, hargs, h⟩ := run_bind_eq_ok.1 h
  obtain ⟨rfl, rfl⟩ := run_pure_eq_ok.1 h
  exact ⟨args', hargs, rfl⟩

theorem lowerAll_cons_eq_ok {e : Expr} {es es' : List Expr} {r r' : Registry}
    (h : d.lowerAll (e :: es) r = (.ok es', r')) : ∃ e' u rest, d.lower e r = (.ok e', u) ∧
      d.lowerAll es u = (.ok rest, r') ∧ es' = e' :: rest := by
  rw [lowerAll] at h
  obtain ⟨e', u, he, h⟩ := run_bind_eq_ok.1 h
  obtain ⟨rest, _, hrest, h⟩ := run_bind_eq_ok.1 h
  obtain ⟨rfl, rfl⟩ := run_pure_eq_ok.1 h
  exact ⟨e', u, rest, he, hrest, rfl⟩

/-- The arguments of an expansion are lowered one after the other. -/
theorem lower_expansion_eq_ok {g : SpecialFunction} {distribution value e : Expr}
    {l : Option Location} {r r' : Registry}
    (h : d.lower (g.expansion distribution value l) r = (.ok e, r')) :
    ∃ distribution' u value', d.lower distribution r = (.ok distribution', u) ∧
      d.lower value u = (.ok value', r') ∧ e = g.expansion distribution' value' l := by
  have pair {f : String} {r : Registry} {e : Expr}
      (h : d.lower (.call f [distribution, value] l) r = (.ok e, r')) :
      ∃ distribution' u value', d.lower distribution r = (.ok distribution', u) ∧
        d.lower value u = (.ok value', r') ∧ e = .call f [distribution', value'] l := by
    obtain ⟨args, hargs, rfl⟩ := lower_call_eq_ok h
    obtain ⟨distribution', u, rest, hd, hrest, rfl⟩ := lowerAll_cons_eq_ok hargs
    obtain ⟨value', v, rest', hvalue, hnil, rfl⟩ := lowerAll_cons_eq_ok hrest
    rw [lowerAll] at hnil
    obtain ⟨rfl, rfl⟩ := run_pure_eq_ok.1 hnil
    exact ⟨distribution', u, value', hd, hvalue, rfl⟩
  cases g with
  | cumulative | density => exact pair h
  | deviance =>
    obtain ⟨args, hargs, rfl⟩ := lower_call_eq_ok h
    obtain ⟨factor, u, rest, hfactor, hrest, rfl⟩ := lowerAll_cons_eq_ok hargs
    obtain ⟨call, v, rest', hcall, hnil, rfl⟩ := lowerAll_cons_eq_ok hrest
    rw [ofNumber, lower] at hfactor
    obtain ⟨rfl, rfl⟩ := run_pure_eq_ok.1 hfactor
    rw [lowerAll] at hnil
    obtain ⟨rfl, rfl⟩ := run_pure_eq_ok.1 hnil
    obtain ⟨distribution', w, value', hd, hvalue, rfl⟩ := pair hcall
    exact ⟨distribution', w, value', hd, hvalue, rfl⟩

theorem checkEvaluable_call_eq_ok {f : String} {args : List Expr} {l : Option Location}
    (h : (Expr.call f args l).checkEvaluable = .ok ()) : checkAllEvaluable args = .ok () := by
  rw [checkEvaluable] at h
  split at h
  · cases h
  · next hargs => exact hargs

theorem checkAllEvaluable_cons_eq_ok {e : Expr} {es : List Expr}
    (h : checkAllEvaluable (e :: es) = .ok ()) :
    e.checkEvaluable = .ok () ∧ checkAllEvaluable es = .ok () := by
  rw [checkAllEvaluable] at h
  split at h
  · cases h
  · next he => exact ⟨he, h⟩

theorem checkEvaluable_expansion {g : SpecialFunction} {distribution value : Expr}
    {l : Option Location} (h : (g.expansion distribution value l).checkEvaluable = .ok ()) :
    distribution.checkEvaluable = .ok () ∧ value.checkEvaluable = .ok () := by
  have pair {f : String} (h : (Expr.call f [distribution, value] l).checkEvaluable = .ok ()) :
      distribution.checkEvaluable = .ok () ∧ value.checkEvaluable = .ok () := by
    obtain ⟨hd, hrest⟩ := checkAllEvaluable_cons_eq_ok (checkEvaluable_call_eq_ok h)
    exact ⟨hd, (checkAllEvaluable_cons_eq_ok hrest).1⟩
  cases g with
  | cumulative | density => exact pair h
  | deviance =>
    obtain ⟨-, hrest⟩ := checkAllEvaluable_cons_eq_ok (checkEvaluable_call_eq_ok h)
    exact pair (checkAllEvaluable_cons_eq_ok hrest).1

variable {samples : Samples} {env : Mapping} {s : String} {P : Expr → Prop}

/-- The distributions that are looked up for `s` have a property once they are lowered. -/
def LookedUp (samples : Samples) (d : Definitions) (R : Registry) (env : Mapping) (s : String)
    (P : Expr → Prop) : Prop :=
  ∀ ⦃g : SpecialFunction⦄ ⦃l : Option Location⦄ ⦃distribution e : Expr⦄ ⦃r r' : Registry⦄,
    samples.distribution g (.name s) l = .ok distribution → r.WellFormed →
    d.lower (distribution.substitute env) r = (.ok e, r') → r'.Within R →
    e.checkEvaluable = .ok () → P e

theorem index_of_validate {base e : Expr} {is : List Expr} {l : Option Location}
    (h : (Expr.index base is l).validate = .ok e) : ∃ js, e = .index base js l := by
  cases is with
  | nil => cases h; exact ⟨_, rfl⟩
  | cons i is =>
    obtain ⟨_, -, h⟩ := bind_eq_ok.1 h
    obtain ⟨js, -, h⟩ := bind_eq_ok.1 h
    cases h
    exact ⟨js, rfl⟩

theorem validateAll_cons_eq_ok {e : Expr} {es es' : List Expr}
    (h : validateAll (e :: es) = .ok es') :
    ∃ e' rest, e.validate = .ok e' ∧ validateAll es = .ok rest ∧ es' = e' :: rest := by
  obtain ⟨e', he, h⟩ := bind_eq_ok.1 h
  obtain ⟨rest, hrest, h⟩ := bind_eq_ok.1 h
  cases h
  exact ⟨e', rest, he, hrest, rfl⟩

theorem expandSpecialAll_cons_eq_ok {e : Expr} {es es' : List Expr}
    (h : expandSpecialAll samples (e :: es) = .ok es') : ∃ e' rest,
      e.expandSpecial samples = .ok e' ∧ expandSpecialAll samples es = .ok rest ∧
        es' = e' :: rest := by
  obtain ⟨e', he, h⟩ := bind_eq_ok.1 h
  obtain ⟨rest, hrest, h⟩ := bind_eq_ok.1 h
  cases h
  exact ⟨e', rest, he, hrest, rfl⟩

theorem forall₂_of_validateAll {es es' : List Expr} (h : validateAll es = .ok es') :
    List.Forall₂ (fun e e' => e.validate = .ok e') es es' := by
  induction es generalizing es' with
  | nil => cases h; exact .nil
  | cons e es ih =>
    obtain ⟨e', es', he, hes, rfl⟩ := validateAll_cons_eq_ok h
    exact .cons he (ih hes)

theorem forall₂_of_expandSpecialAll {es es' : List Expr}
    (h : expandSpecialAll samples es = .ok es') :
    List.Forall₂ (fun e e' => e.expandSpecial samples = .ok e') es es' := by
  induction es generalizing es' with
  | nil => cases h; exact .nil
  | cons e es ih =>
    obtain ⟨e', es', he, hes, rfl⟩ := expandSpecialAll_cons_eq_ok h
    exact .cons he (ih hes)

/-- Where two expressions are left, two were written. -/
theorem exists_pair {R : Expr → Expr → Prop} {es : List Expr} {x' value' : Expr}
    (h : List.Forall₂ R es [x', value']) :
    ∃ x value, es = [x, value] ∧ R x x' ∧ R value value' := by
  obtain ⟨x, rest, hx, hrest, rfl⟩ := List.forall₂_cons_right_iff.1 h
  obtain ⟨value, none, hvalue, hnone, rfl⟩ := List.forall₂_cons_right_iff.1 hrest
  obtain rfl := List.forall₂_nil_right_iff.1 hnone
  exact ⟨x, value, rfl, hx, hvalue⟩

mutual

/-- A rule that is lowered from what is expanded, and that can be compiled, is what the right-hand
side says. -/
theorem mirrors_of_lower (henv : env.Literal) (hP : LookedUp samples d R env s P) :
    ∀ {e valid expanded rule : Expr} {r r' : Registry},
    e.validate = .ok valid → valid.expandSpecial samples = .ok expanded →
    d.lower (expanded.substitute env) r = (.ok rule, r') → r.WellFormed → r'.Within R →
    rule.checkEvaluable = .ok () → e.Mirrors env s P rule
  | .literal v k, _, _, _, _, _, hvalid, hexpanded, h, _, _, _ => by
    cases hvalid
    cases hexpanded
    rw [substitute, lower] at h
    cases h
    exact .literal v k
  | .name x, _, _, _, _, _, hvalid, hexpanded, h, _, _, _ => by
    cases hvalid
    cases hexpanded
    have hname : (Expr.name x).Mirrors env s P ((Expr.name x).substitute env) := .name x
    rcases substitute_name henv x with heq | ⟨v, k, heq⟩
    · rw [heq, lower] at h
      cases h
      rwa [heq] at hname
    · rw [heq, lower] at h
      cases h
      rwa [heq] at hname
  | .index base is l, _, _, _, _, _, hvalid, hexpanded, h, _, _, _ => by
    obtain ⟨js, rfl⟩ := index_of_validate hvalid
    obtain ⟨_, -, hexpanded⟩ := bind_eq_ok.1 hexpanded
    obtain ⟨_, -, hexpanded⟩ := bind_eq_ok.1 hexpanded
    cases hexpanded
    rw [substitute, lower] at h
    obtain ⟨_, _, -, h⟩ := run_bind_eq_ok.1 h
    obtain ⟨_, _, -, h⟩ := run_bind_eq_ok.1 h
    obtain ⟨ref, _, -, h⟩ := run_bind_eq_ok.1 h
    obtain ⟨rfl, -⟩ := run_pure_eq_ok.1 h
    exact .index ref
  | .call f args l, _, _, _, _, _, hvalid, hexpanded, h, hr, hle, hrule => by
    obtain ⟨valids, hvalids, rfl⟩ := validate_call_eq_ok hvalid
    obtain ⟨expandeds, hexpandeds, hexpanded⟩ := bind_eq_ok.1 hexpanded
    rcases expandCall_eq_ok hexpanded with
      ⟨hf, rfl⟩ | ⟨g, x, value, distribution, hf, rfl, hd, rfl⟩
    · obtain ⟨args', hargs, rfl⟩ := lower_call_eq_ok h
      exact .call hf (mirrors_of_lowerAll henv hP hvalids hexpandeds hargs hr hle
        (checkEvaluable_call_eq_ok hrule))
    · rw [substitute_expansion] at h
      obtain ⟨distribution', u, value', hdistribution, hvalue, rfl⟩ := lower_expansion_eq_ok h
      obtain ⟨hcheckd, hcheckv⟩ := checkEvaluable_expansion hrule
      have hu := (lower_grows d _ grows_any).of_eq hdistribution hr
      have hur' := (lower_grows d _ grows_any).of_eq hvalue hu.wellFormed
      obtain ⟨validx, validvalue, rfl, hx, hexpandedvalue⟩ :=
        exists_pair (forall₂_of_expandSpecialAll hexpandeds)
      obtain ⟨x₀, value₀, rfl, hvalidx, hvalidvalue⟩ := exists_pair (forall₂_of_validateAll hvalids)
      have hmirrors := mirrors_of_lower henv hP hvalidvalue hexpandedvalue hvalue hu.wellFormed hle
        hcheckv
      refine .special hf ?_ hmirrors rfl
      rintro rfl
      cases hvalidx
      cases hx
      exact hP hd hr hdistribution (hur'.within.trans hle) hcheckd
  | .range .., _, _, _, _, _, hvalid, hexpanded, h, _, _, hrule => by
    obtain ⟨_, -, hvalid⟩ := bind_eq_ok.1 hvalid
    obtain ⟨_, -, hvalid⟩ := bind_eq_ok.1 hvalid
    cases hvalid
    obtain ⟨_, -, hexpanded⟩ := bind_eq_ok.1 hexpanded
    obtain ⟨_, -, hexpanded⟩ := bind_eq_ok.1 hexpanded
    cases hexpanded
    rw [substitute, lower] at h
    obtain ⟨_, _, -, h⟩ := run_bind_eq_ok.1 h
    obtain ⟨_, _, -, h⟩ := run_bind_eq_ok.1 h
    obtain ⟨rfl, -⟩ := run_pure_eq_ok.1 h
    cases hrule
  | .stepped .., _, _, _, _, _, hvalid, _, _, _, _, _ => by cases hvalid
  | .colon _, _, _, _, _, _, hvalid, hexpanded, h, _, _, hrule => by
    cases hvalid
    cases hexpanded
    rw [substitute, lower] at h
    cases h
    cases hrule
  | .array xs shape l, _, _, _, _, _, hvalid, hexpanded, h, hr, hle, hrule => by
    obtain ⟨valids, hvalids, hvalid⟩ := bind_eq_ok.1 hvalid
    cases hvalid
    obtain ⟨expandeds, hexpandeds, hexpanded⟩ := bind_eq_ok.1 hexpanded
    cases hexpanded
    rw [substitute, lower] at h
    obtain ⟨xs', _, hxs, h⟩ := run_bind_eq_ok.1 h
    obtain ⟨rfl, rfl⟩ := run_pure_eq_ok.1 h
    exact .array (mirrors_of_lowerAll henv hP hvalids hexpandeds hxs hr hle hrule)
termination_by e => sizeOf e

theorem mirrors_of_lowerAll (henv : env.Literal) (hP : LookedUp samples d R env s P) :
    ∀ {es valids expandeds rules : List Expr} {r r' : Registry},
    validateAll es = .ok valids → expandSpecialAll samples valids = .ok expandeds →
    d.lowerAll (substituteAll env expandeds) r = (.ok rules, r') → r.WellFormed → r'.Within R →
    checkAllEvaluable rules = .ok () → List.Forall₂ (Mirrors env s P) es rules
  | [], _, _, _, _, _, hvalids, hexpandeds, h, _, _, _ => by
    cases hvalids
    cases hexpandeds
    rw [substituteAll, lowerAll] at h
    cases h
    exact .nil
  | e :: es, _, _, _, _, _, hvalids, hexpandeds, h, hr, hle, hrules => by
    obtain ⟨valid, valids, hvalid, hvalidrest, rfl⟩ := validateAll_cons_eq_ok hvalids
    obtain ⟨expanded, expandeds, hexpanded, hexpandedrest, rfl⟩ :=
      expandSpecialAll_cons_eq_ok hexpandeds
    obtain ⟨rule, u, rules, hrule, hrest, rfl⟩ := lowerAll_cons_eq_ok h
    obtain ⟨hcheck, hchecks⟩ := checkAllEvaluable_cons_eq_ok hrules
    have hu := (lower_grows d _ grows_any).of_eq hrule hr
    have hur' := (lowerAll_grows d _ grows_any).of_eq hrest hu.wellFormed
    exact .cons (mirrors_of_lower henv hP hvalid hexpanded hrule hr (hur'.within.trans hle) hcheck)
      (mirrors_of_lowerAll henv hP hvalidrest hexpandedrest hrest hu.wellFormed hle hchecks)
termination_by es => sizeOf es

end

end Lowered

end Expr

end PlateModel
