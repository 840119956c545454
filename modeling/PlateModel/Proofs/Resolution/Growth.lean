import PlateModel.Proofs.Computation
import PlateModel.Proofs.Model.References
import PlateModel.Proofs.Registry.Reference
import PlateModel.Resolution.Lowering

/-!
# Lowering lets arrays grow

Whatever lowering comes to, it does nothing to the registry but let arrays come into being and grow,
and only arrays that the expression refers to. A registry in which no array grows is not changed at
all.

* `Registry.Grows`: how a registry may change, for a set of arrays.
* `lower_grows`, `symbolic_grows`, `resolve_grows`: expressions change it in this way.
-/

namespace PlateModel

namespace Registry

variable {r r' R : Registry} {array : String} {is : List Index} {K : String → Prop}

theorem forall₂_le_antisymm {s t : List Nat} (h : List.Forall₂ (· ≤ ·) s t)
    (k : List.Forall₂ (· ≤ ·) t s) : s = t := by
  induction h with
  | nil => rfl
  | cons hab _ ih =>
    cases k with
    | cons hba hrest => rw [Nat.le_antisymm hab hba, ih hrest]

/-- A registry has become another one: arrays with names in `K` may have come into being and grown,
and if none of them is larger, then nothing has changed. -/
structure Grows (K : String → Prop) (r r' : Registry) : Prop where
  wellFormed : r'.WellFormed
  within : r.Within r'
  eq_of_within : r'.Within r → r' = r
  frame : ∀ {x}, ¬ K x → r'.shape? x = r.shape? x

theorem Grows.refl (hr : r.WellFormed) : r.Grows K r := ⟨hr, .refl r, fun _ => rfl, fun _ => rfl⟩

theorem Grows.trans (h : r.Grows K r') (k : r'.Grows K R) : r.Grows K R where
  wellFormed := k.wellFormed
  within := h.within.trans k.within
  eq_of_within hle := by
    have h₁ : r' = r := h.eq_of_within (k.within.trans hle)
    subst h₁
    exact k.eq_of_within hle
  frame hx := (k.frame hx).trans (h.frame hx)

theorem grows_grown (hr : r.WellFormed) (hfits : r.RankFits array is)
    (halloc : isAllocatable (r.needed array is)) (hK : K array) :
    r.Grows K (r.grown array is) where
  wellFormed := hr.grown halloc
  within := within_grown hfits
  eq_of_within hle := by
    obtain ⟨s, hs, hns⟩ := hle (by rw [shape?_grown, if_pos rfl])
    exact grown_eq_self hs (forall₂_le_antisymm hns (forall₂_needed hfits hs))
  frame {x} hx := by
    rw [shape?_grown, if_neg]
    rintro rfl
    exact hx hK

end Registry

/-- The order in which computations that refer to arrays in `K` take the registry. -/
def Referring.Order (K : String → Prop) (r r' : Registry) : Prop := r.WellFormed → r.Grows K r'

namespace Referring

variable {K : String → Prop} {α β : Type}

/-- A computation lets arrays in `K` grow, and does nothing else to the registry. -/
def Grows (K : String → Prop) (m : Referring α) : Prop := Advances (Order K) m

theorem Order.refl (r : Registry) : Order K r r := Registry.Grows.refl

theorem Order.trans {r s t : Registry} (h : Order K r s) (k : Order K s t) : Order K r t :=
  fun hr => (h hr).trans (k (h hr).wellFormed)

theorem Grows.of_eq {m : Referring α} (hm : Grows K m) {r r' : Registry} {x : Except Fault α}
    (h : m r = (x, r')) (hr : r.WellFormed) : r.Grows K r' := hm _ _ _ h hr

theorem Grows.pure (a : α) : Grows K (Pure.pure a : Referring α) := Advances.pure Order.refl a

theorem Grows.throw (e : Fault) : Grows K (MonadExcept.throw e : Referring α) :=
  Advances.throw Order.refl e

theorem Grows.lift (x : Except Fault α) : Grows K (liftM x : Referring α) :=
  Advances.lift Order.refl x

theorem Grows.bind {m : Referring α} {f : α → Referring β} (hm : Grows K m)
    (hf : ∀ a, Grows K (f a)) : Grows K (m >>= f) := Advances.bind Order.trans hm hf

end Referring

open Referring

variable {K : String → Prop}

theorem referTo_grows {array : String} (hK : K array) (is : List Index) :
    Grows K (referTo array is) := by
  intro r x r' h hr
  simp only [referTo] at h
  split at h
  · next ref r'' heq =>
    obtain ⟨-, hfits, halloc, rfl, -⟩ := (Registry.reference_eq_ok hr).1 heq
    cases h
    exact Registry.grows_grown hr hfits halloc hK
  · cases h
    exact .refl hr

/-- An array reference refers to an array in `K`, if it can be lowered. -/
theorem arrayName_referTo_grows {base : Expr} {is : List Expr} {l : Option Location}
    (hK : ∀ x, base = .name x → K x) {α : Type} {f : String → Referring α}
    (hf : ∀ x, K x → Grows K (f x)) :
    Grows K ((liftM (arrayName base is l) : Referring String) >>= f) := by
  unfold arrayName
  split
  · next x =>
    intro r y r' h
    exact hf x (hK x rfl) r y r' h
  · intro r y r' h
    cases h
    exact Order.refl r

namespace Definitions

/-- The arrays of an expression are in `K`. -/
def RefersIn (K : String → Prop) (rs : List (Expr × List Expr)) : Prop :=
  ∀ ⦃x is⦄, (Expr.name x, is) ∈ rs → K x

theorem RefersIn.left {rs ss : List (Expr × List Expr)} (h : RefersIn K (rs ++ ss)) :
    RefersIn K rs := fun _ _ hx => h (List.mem_append_left _ hx)

theorem RefersIn.right {rs ss : List (Expr × List Expr)} (h : RefersIn K (rs ++ ss)) :
    RefersIn K ss := fun _ _ hx => h (List.mem_append_right _ hx)

mutual

/-- Lowering lets the arrays grow that an expression refers to. -/
theorem lower_grows (d : Definitions) : ∀ e : Expr, RefersIn K e.references → Grows K (d.lower e)
  | .literal v k, _ => by rw [lower]; exact .pure _
  | .name x, _ => by rw [lower]; exact .pure _
  | .colon l, _ => by rw [lower]; exact .pure _
  | .index base is l, h => by
    rw [lower]
    refine arrayName_referTo_grows ?_ fun array hK => ?_
    · rintro x rfl
      exact h (List.mem_cons_self ..)
    · refine (indices_grows d is fun _ _ hx => h (List.mem_cons_of_mem _ hx)).bind fun js => ?_
      exact (referTo_grows hK js).bind fun _ => .pure _
  | .call f args l, h => by
    rw [lower]
    exact (lowerAll_grows d args h).bind fun _ => .pure _
  | .range a b l, h => by
    rw [lower]
    refine (lower_grows d a h.left).bind fun _ => ?_
    exact (lower_grows d b h.right).bind fun _ => .pure _
  | .stepped a b s l, h => by
    rw [lower]
    refine (lower_grows d s h.right.right).bind fun _ => ?_
    refine (lower_grows d a h.left).bind fun _ => ?_
    exact (lower_grows d b h.right.left).bind fun _ => .pure _
  | .array xs shape l, h => by
    rw [lower]
    exact (lowerAll_grows d xs h).bind fun _ => .pure _

theorem lowerAll_grows (d : Definitions) : ∀ es : List Expr,
    RefersIn K (Expr.referencesOfAll es) → Grows K (d.lowerAll es)
  | [], _ => by rw [lowerAll]; exact .pure _
  | e :: es, h => by
    rw [lowerAll]
    refine (lower_grows d e h.left).bind fun _ => ?_
    exact (lowerAll_grows d es h.right).bind fun _ => .pure _

theorem indices_grows (d : Definitions) : ∀ is : List Expr,
    RefersIn K (Expr.referencesOfAll is) → Grows K (d.indices is)
  | [], _ => by rw [indices]; exact .pure _
  | .colon _ :: rest, h => by
    rw [indices]
    exact (indices_grows d rest h.right).bind fun _ => .pure _
  | .stepped a b s l :: _, _ => by rw [indices]; exact .throw _
  | .range a b _ :: rest, h => by
    rw [indices]
    refine (lower_grows d a h.left.left).bind fun a' => (Grows.lift _).bind fun i => ?_
    refine (lower_grows d b h.left.right).bind fun b' => (Grows.lift _).bind fun j => ?_
    exact (indices_grows d rest h.right).bind fun _ => .pure _
  | .literal v k :: rest, h | .name x :: rest, h | .index base is l :: rest, h
  | .call f args l :: rest, h | .array xs shape l :: rest, h => by
    rw [indices]
    · refine (lower_grows d _ h.left).bind fun a' => (Grows.lift _).bind fun i => ?_
      exact (indices_grows d rest h.right).bind fun _ => .pure _
    all_goals nofun

end

theorem symbolic_grows (d : Definitions) (e : Expr) (h : RefersIn K e.references) :
    Grows K (d.symbolic e) := by
  unfold symbolic
  split
  · exact .pure _
  · refine arrayName_referTo_grows ?_ fun array hK => ?_
    · rintro x rfl
      exact h (List.mem_cons_self ..)
    · refine (indices_grows d _ fun _ _ hx => h (List.mem_cons_of_mem _ hx)).bind fun js => ?_
      exact (referTo_grows hK js).bind fun _ => .pure _
  · exact .throw _

theorem resolve_grows (d : Definitions) (e : Expr) (h : RefersIn K e.references) :
    Grows K (d.resolve e) := by
  unfold resolve
  exact (lower_grows d e h).bind fun _ => .lift _

end Definitions

end PlateModel
