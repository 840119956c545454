import PlateModel.Evaluation.Generator
import PlateModel.Proofs.Computation
import PlateModel.Proofs.Emission.Nodes
import PlateModel.Proofs.Table

/-!
# Calls by position and by name

The value of an expression depends on the values of its own names only, so the parameters of a
generator can be given by position, by name in any order, or by name among the values of other
names. All this comes to the same, with one exception: the name of the generator itself stands for
it in every call, and a call that gives a value by this name fails.

* `Expr.eval_congr`: environments that agree on the names of an expression give it the same value.
* `Generator.call_of_bound`: a generator whose parameters all have values evaluates its expression.
* `Generator.call_named`: a call by name against a call by position.
* `Generator.call_named_self`: a parameter that can be given by position only.
-/

namespace PlateModel

/-! ## What a value depends on -/

namespace Expr

variable {env env' : Environment}

mutual

/-- Environments that agree on the names of an expression give it the same value. -/
theorem eval_congr : ∀ {e : Expr}, (∀ x ∈ e.names, env x = env' x) → e.eval env = e.eval env'
  | literal .., _ => rfl
  | name x, h => by rw [eval, eval, h x (List.mem_singleton_self x)]
  | call f args l, h => by rw [eval, eval, evalAll_congr h]
  | array xs shape l, h => by rw [eval, eval, evalAll_congr h]
  | index .., _ | range .., _ | stepped .., _ | colon .., _ => rfl

theorem evalAll_congr : ∀ {es : List Expr}, (∀ x ∈ namesOfAll es, env x = env' x) →
    evalAll env es = evalAll env' es
  | [], _ => rfl
  | e :: es, h => by
    have hhead : e.eval env = e.eval env' :=
      eval_congr fun x hx => h x (List.mem_append_left _ hx)
    have htail : evalAll env es = evalAll env' es :=
      evalAll_congr fun x hx => h x (List.mem_append_right _ hx)
    rw [evalAll, evalAll, hhead, htail]

end

end Expr

/-! ## The environment of a call -/

namespace Generator

variable {g : Generator} {values : List Value} {pairs : List (String × Value)}

/-- Without values given by name, the parameters have the values given by position. -/
theorem bind_positional : g.bind values .empty = .ofList (g.parameters.zip values) := rfl

/-- Without values given by position, the names have the values given by name. -/
theorem bind_named (h : (pairs.map (·.1)).Nodup) : g.bind [] (.ofList pairs) = .ofList pairs := by
  rw [bind, List.zip_nil_right, Assoc.entries_ofList h]
  rfl

/-- A generator whose parameters all have values evaluates its expression with these. -/
theorem call_of_bound {named : Assoc Value} (hown : named.contains ownName = false)
    (hlength : values.length ≤ g.parameters.length)
    (hbound : ∀ x ∈ g.parameters, (g.bind values named).contains x) :
    g.call values named =
      (g.expression.eval (g.bind values named).get?).mapError .evaluation := by
  have hmissing : (g.parameters.filter fun x => !(g.bind values named).contains x) = [] :=
    List.filter_eq_nil_iff.2 fun x hx => by simp [hbound x hx]
  simp only [call, hown, Bool.false_eq_true, if_false, Nat.not_lt.2 hlength, hmissing]
  cases g.expression.eval (g.bind values named).get? <;> rfl

/-- If every parameter has its value, the generator gives the value of its expression under any
values that the names of the parameters have. -/
theorem call_of_given {e : Expr} {named : Assoc Value} {positional : List Value}
    (he : Generator.ofExpr e = .ok g) (hown : named.contains ownName = false)
    (hpositional : positional.length ≤ g.parameters.length)
    (hlength : values.length = g.parameters.length)
    (hgiven : ∀ p ∈ g.parameters.zip values, (g.bind positional named).get? p.1 = some p.2)
    {ρ : String → Value} (hρ : ∀ p ∈ g.parameters.zip values, ρ p.1 = p.2) :
    g.call positional named = (e.eval fun x => some (ρ x)).mapError .evaluation := by
  obtain ⟨rfl, hparameters⟩ := State.parents_of_ofExpr he
  have hzip {x : String} (hx : x ∈ g.parameters) : ∃ v, (x, v) ∈ g.parameters.zip values := by
    rw [← List.map_fst_zip (Nat.le_of_eq hlength.symm)] at hx
    obtain ⟨⟨_, v⟩, hv, rfl⟩ := List.mem_map.1 hx
    exact ⟨v, hv⟩
  rw [call_of_bound hown hpositional, Expr.eval_congr]
  · intro x hx
    obtain ⟨v, hv⟩ := hzip (hparameters ▸ List.mem_eraseDups.2 hx)
    rw [hgiven _ hv, ← hρ _ hv]
  · intro x hx
    obtain ⟨v, hv⟩ := hzip hx
    exact Assoc.contains_iff.2 ⟨v, hgiven _ hv⟩

/-! ## Calls by name -/

section Named

variable {e : Expr} {further : List (String × Value)}

/-- A generator gives the same value, or fails in the same way, whether its parameters have their
values by position or by name: the names may come in any order and together with other names. The
outcome is that of the expression where its parameters have these values and no name is without one.
A call that gives a value by the name of the generator itself fails, whatever the value. -/
theorem call_named (he : Generator.ofExpr e = .ok g)
    (hlength : values.length = g.parameters.length) (hfurther : (further.map (·.1)).Nodup)
    (hother : ∀ x ∈ further.map (·.1), x ∉ g.parameters)
    (hpairs : pairs.Perm (g.parameters.zip values ++ further)) :
    g.parameters = e.names.eraseDups ∧
      (∀ ρ : String → Value, (∀ p ∈ g.parameters.zip values, ρ p.1 = p.2) →
        g.call values .empty = (e.eval fun x => some (ρ x)).mapError .evaluation) ∧
      (∀ names, g.call values .empty ≠ .error (.missingArguments names)) ∧
      g.call [] (.ofList pairs) =
        if ownName ∈ pairs.map (·.1) then .error .reservedName else g.call values .empty := by
  obtain ⟨hexpression, hparameters⟩ := State.parents_of_ofExpr he
  have hnodup : g.parameters.Nodup := hparameters ▸ nodup_eraseDups _
  have hkeys : (g.parameters.zip values).map (·.1) = g.parameters :=
    List.map_fst_zip (Nat.le_of_eq hlength.symm)
  have hzip : ((g.parameters.zip values).map (·.1)).Nodup := hkeys.symm ▸ hnodup
  have hnamed : (pairs.map (·.1)).Nodup := by
    refine (hpairs.map (·.1)).nodup_iff.2 ?_
    rw [List.map_append]
    refine List.nodup_append.2 ⟨hzip, hfurther, ?_⟩
    rintro x hx _ hx' rfl
    exact hother x hx' (hkeys ▸ hx)
  -- both tables hold the values of the parameters
  have hposition (p) (hp : p ∈ g.parameters.zip values) :
      (g.bind values .empty).get? p.1 = some p.2 := by
    rw [bind_positional]
    exact Assoc.get?_ofList hzip hp
  have hname (p) (hp : p ∈ g.parameters.zip values) :
      (g.bind [] (.ofList pairs)).get? p.1 = some p.2 := by
    rw [bind_named hnamed]
    exact Assoc.get?_ofList hnamed (hpairs.mem_iff.2 (List.mem_append_left _ hp))
  have houtcome (ρ : String → Value) (hρ : ∀ p ∈ g.parameters.zip values, ρ p.1 = p.2) :
      g.call values .empty = (e.eval fun x => some (ρ x)).mapError .evaluation :=
    call_of_given he rfl (Nat.le_of_eq hlength) hlength hposition hρ
  obtain ⟨ρ, hρ⟩ : ∃ ρ : String → Value, ∀ p ∈ g.parameters.zip values, ρ p.1 = p.2 :=
    ⟨fun x => ((g.bind values .empty).get? x).getD default, fun p hp => by simp [hposition p hp]⟩
  refine ⟨hexpression ▸ hparameters, houtcome, fun names h => ?_, ?_⟩
  · rw [houtcome ρ hρ] at h
    cases heval : e.eval fun x => some (ρ x) with
    | ok v => rw [heval] at h; cases h
    | error why => rw [heval] at h; cases h
  · split
    · next hown =>
      rw [call, if_pos]
      exact Assoc.contains_ofList hnamed |>.2 hown
    · next hown =>
      have hfree : (Assoc.ofList pairs).contains ownName = false :=
        Bool.eq_false_iff.2 fun h => hown ((Assoc.contains_ofList hnamed).1 h)
      rw [houtcome ρ hρ]
      exact call_of_given he hfree (Nat.zero_le _) hlength hname hρ

end Named

/-- The difference of two names. -/
def difference : Expr := .call "-" [.name "b", .name "a"] none

theorem call_named_difference :
    ∃ g, Generator.ofExpr difference = .ok g ∧ g.parameters = ["b", "a"] ∧
      g.call [.number (.int 7), .number (.int 2)] .empty = .ok (.number (.int 5)) ∧
      g.call [] (.ofList [("z", .number (.int 0)), ("a", .number (.int 2)),
        ("b", .number (.int 7))]) = .ok (.number (.int 5)) := by
  have hcompiled : Generator.ofExpr difference = .ok ⟨difference, ["b", "a"]⟩ := rfl
  have hother : ([("z", Value.number (.int 0))].map (·.1)).Nodup := List.nodup_singleton "z"
  have hpairs : List.Perm
      [("z", Value.number (.int 0)), ("a", .number (.int 2)), ("b", .number (.int 7))]
      (["b", "a"].zip [.number (.int 7), .number (.int 2)] ++ [("z", .number (.int 0))]) :=
    (List.reverse_perm _).symm
  obtain ⟨-, -, -, hnamed⟩ := call_named hcompiled rfl hother (by decide) hpairs
  rw [if_neg (by decide)] at hnamed
  exact ⟨_, hcompiled, rfl, rfl, hnamed⟩

/-- One more than a name. -/
def successor (x : String) : Expr := .call "+" [.name x, .literal (.int 1) 0] none

/-- The name `self` has a value by position, and none by name. -/
theorem call_named_self :
    ∃ g, Generator.ofExpr (successor "self") = .ok g ∧ g.parameters = ["self"] ∧
      g.call [.number (.int 1)] .empty = .ok (.number (.int 2)) ∧
      g.call [] (.ofList [("self", .number (.int 1))]) = .error .reservedName :=
  ⟨_, rfl, rfl, rfl, rfl⟩

end Generator

end PlateModel
