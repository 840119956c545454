import Mathlib.Logic.Relation
import PlateModel.Proofs.State.Growth

/-!
# The edits of a state

A compilation changes its state by small edits: arrays come into being or grow, a datum is bound as
long as there are no rules, a rule is added, nodes are stored. What the edits keep holds at every
point of a compilation.

* `State.Edit`, `State.Edits`: one edit, and any number of them.
* `State.Consistent`: a symbol has at most one rule, and no logical one if data bind it.
* `State.KeepsRules`: rules are neither removed nor replaced.
* `Consistent.edit`, `Edit.keepsRules`: edits keep the state consistent, and its rules.
-/

namespace PlateModel

namespace State

variable {s t u : State}

/-- One edit of a state. -/
inductive Edit (s : State) : State → Prop
  | registry (r : Registry) : Edit s { s with registry := r }
  /-- Data are bound before there are rules. -/
  | datum (x : String) (v : Number) (hlogical : s.logical = .empty)
      (hstochastic : s.stochastic = .empty) : Edit s { s with data := s.data.put x v }
  | logical {x : Symbol} {rhs : Expr} {l : Option Location} {t : State}
      (h : s.addLogical x rhs l = .ok (some t)) : Edit s t
  /-- A stochastic rule is compiled before it is added. -/
  | stochastic {x : Symbol} {rhs : Expr} {g : Generator} {l : Option Location} {t : State}
      (hg : Generator.ofExpr rhs = .ok g) (h : s.addStochastic x g l = .ok (some t)) : Edit s t
  | nodes (ns : Assoc Node) : Edit s { s with nodes := some ns }

/-- Any number of edits, one after the other. -/
abbrev Edits : State → State → Prop := Relation.ReflTransGen Edit

/-! ## What edits keep -/

/-- A symbol has at most one rule, a logical or a stochastic one, and no logical rule if data bind
it. Stochastic rules are compiled expressions. -/
structure Consistent (s : State) : Prop where
  kinds : ∀ ⦃x⦄, s.logical.contains x → s.stochastic.contains x = false
  unbound : ∀ ⦃x⦄, s.data.contains x → s.logical.contains x = false
  dataKeys : s.data.keys.Nodup
  logicalKeys : s.logical.keys.Nodup
  stochasticKeys : s.stochastic.keys.Nodup
  compiled : ∀ ⦃x g⦄, s.stochastic.get? x = some g → Generator.ofExpr g.expression = .ok g

theorem consistent_empty : Consistent .empty where
  kinds _ h := nomatch h
  unbound _ h := nomatch h
  dataKeys := .nil
  logicalKeys := .nil
  stochasticKeys := .nil
  compiled _ _ h := nomatch h

theorem Consistent.datum (hs : s.Consistent) (hlogical : s.logical = .empty) (x : String)
    (v : Number) : Consistent { s with data := s.data.put x v } where
  kinds := hs.kinds
  unbound y _ := by
    show s.logical.contains y = false
    rw [hlogical]
    rfl
  dataKeys := Assoc.nodup_put hs.dataKeys
  logicalKeys := hs.logicalKeys
  stochasticKeys := hs.stochasticKeys
  compiled := hs.compiled

theorem Consistent.addLogical (hs : s.Consistent) {x : Symbol} {rhs : Expr} {l : Option Location}
    (h : s.addLogical x rhs l = .ok (some t)) : t.Consistent := by
  rcases addLogical_eq_ok.1 h with ⟨hst, ⟨_, _, _, h⟩ | ⟨_, _, _, _, h⟩ | ⟨hd, hl, h⟩⟩
  · cases h
  · cases h
  · cases h
    have hdata : s.data.contains x.name = false := by simp [Assoc.contains, hd]
    refine ⟨fun y hy => ?_, fun y hy => ?_, hs.dataKeys, Assoc.nodup_put hs.logicalKeys,
      hs.stochasticKeys, hs.compiled⟩
    · rcases Assoc.contains_put.1 hy with rfl | hy
      · exact hst
      · exact hs.kinds hy
    · refine Bool.not_eq_true _ ▸ fun hput => ?_
      rcases Assoc.contains_put.1 hput with rfl | hput
      · rw [hdata] at hy
        cases hy
      · rw [hs.unbound hy] at hput
        cases hput

theorem Consistent.addStochastic (hs : s.Consistent) {x : Symbol} {g : Generator}
    {l : Option Location} (hg : Generator.ofExpr g.expression = .ok g)
    (h : s.addStochastic x g l = .ok (some t)) : t.Consistent := by
  rcases addStochastic_eq_ok.1 h with ⟨hl, ⟨_, _, _, h⟩ | ⟨hf, h⟩⟩
  · cases h
  · cases h
    refine ⟨fun y hy => ?_, hs.unbound, hs.dataKeys, hs.logicalKeys,
      Assoc.nodup_put hs.stochasticKeys, fun y g' hg' => ?_⟩
    · refine Bool.not_eq_true _ ▸ fun hput => ?_
      rcases Assoc.contains_put.1 hput with rfl | hput
      · rw [hl] at hy
        cases hy
      · rw [hs.kinds hy] at hput
        cases hput
    · rw [Assoc.get?_put] at hg'
      split at hg'
      · cases hg'
        exact hg
      · exact hs.compiled hg'

/-- Edits keep a state consistent. -/
theorem Consistent.edit (hs : s.Consistent) (h : s.Edit t) : t.Consistent := by
  cases h with
  | registry | nodes =>
    exact ⟨hs.kinds, hs.unbound, hs.dataKeys, hs.logicalKeys, hs.stochasticKeys, hs.compiled⟩
  | datum x v hlogical => exact hs.datum hlogical x v
  | logical h => exact hs.addLogical h
  | stochastic hg h =>
    obtain ⟨_, -, rfl⟩ := map_eq_ok.1 hg
    exact hs.addStochastic hg h

theorem Consistent.edits (hs : s.Consistent) (h : s.Edits t) : t.Consistent := by
  induction h with
  | refl => exact hs
  | tail _ h ih => exact ih.edit h

/-- What is a rule of the one state is a rule of the other. -/
structure KeepsRules (s t : State) : Prop where
  logical : ∀ ⦃x rhs⦄, s.logical.get? x = some rhs → t.logical.get? x = some rhs
  stochastic : ∀ ⦃x g⦄, s.stochastic.get? x = some g → t.stochastic.get? x = some g

theorem KeepsRules.refl (s : State) : s.KeepsRules s := ⟨fun _ _ h => h, fun _ _ h => h⟩

theorem KeepsRules.trans (h : s.KeepsRules t) (k : t.KeepsRules u) : s.KeepsRules u :=
  ⟨fun _ _ hx => k.logical (h.logical hx), fun _ _ hx => k.stochastic (h.stochastic hx)⟩

end State

end PlateModel
