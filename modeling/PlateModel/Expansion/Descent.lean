import PlateModel.Model.Substitution

/-!
# Descent of lists of numbers and of heights

A list of numbers descends when one of its members is replaced by any number of smaller ones.
However large the replacements are, this cannot go on forever. A pass over statements replaces some
of them by lower ones and leaves the others as high as they are; it returns how many it has
replaced, and if there are any, the heights of the statements descend.

* `Descends.wf`: there is no infinite descent.
* `Below.append_left`: a list descends when a part of it does.
* `LowersAll`: what a pass that replaces statements by lower ones does to their heights.
-/

namespace PlateModel

/-- One member of the second list is replaced by smaller ones in the first. -/
inductive Descends : List Nat → List Nat → Prop
  | here {n : Nat} {ms rest : List Nat} (smaller : ∀ m ∈ ms, m < n) :
    Descends (ms ++ rest) (n :: rest)
  | later {n : Nat} {ks ns : List Nat} (descends : Descends ks ns) : Descends (n :: ks) (n :: ns)

namespace Descends

theorem of_append {ks as bs : List Nat} (h : Descends ks (as ++ bs)) :
    (∃ cs, Descends cs as ∧ ks = cs ++ bs) ∨ ∃ cs, Descends cs bs ∧ ks = as ++ cs := by
  induction as generalizing ks with
  | nil => exact .inr ⟨ks, h, rfl⟩
  | cons a as ih =>
    cases h with
    | @here _ ms _ smaller =>
      exact .inl ⟨ms ++ as, .here smaller, (List.append_assoc ..).symm⟩
    | later h =>
      rcases ih h with ⟨cs, hc, rfl⟩ | ⟨cs, hc, rfl⟩
      · exact .inl ⟨a :: cs, .later hc, rfl⟩
      · exact .inr ⟨cs, hc, rfl⟩

theorem acc_append {as bs : List Nat} (ha : Acc Descends as) (hb : Acc Descends bs) :
    Acc Descends (as ++ bs) := by
  induction ha generalizing bs with
  | intro as _ iha =>
    induction hb with
    | intro bs hbs ihb =>
      refine .intro _ fun ks h => ?_
      rcases of_append h with ⟨cs, hc, rfl⟩ | ⟨cs, hc, rfl⟩
      · exact iha cs hc (.intro bs hbs)
      · exact ihb cs hc

theorem acc_nil : Acc Descends [] := .intro _ fun _ h => nomatch h

theorem acc_of_forall {ns : List Nat} (h : ∀ n ∈ ns, Acc Descends [n]) : Acc Descends ns := by
  induction ns with
  | nil => exact acc_nil
  | cons n ns ih =>
    have head : Acc Descends [n] := h n (List.mem_cons_self ..)
    exact acc_append head (ih fun m hm => h m (List.mem_cons_of_mem _ hm))

theorem acc_single (n : Nat) : Acc Descends [n] := by
  induction n using Nat.strongRecOn with
  | ind n ih =>
    refine .intro _ fun ks h => ?_
    cases h with
    | here smaller => simpa using acc_of_forall fun m hm => ih m (smaller m hm)
    | later h => cases h

/-- There is no infinite descent. -/
theorem wf : WellFounded Descends := ⟨fun _ => acc_of_forall fun n _ => acc_single n⟩

end Descends

/-- One list comes from another by descending at least once. -/
def Below : List Nat → List Nat → Prop := Relation.TransGen Descends

namespace Below

theorem wf : WellFounded Below := Descends.wf.transGen

theorem trans {as bs cs : List Nat} (h : Below as bs) (k : Below bs cs) : Below as cs :=
  Relation.TransGen.trans h k

theorem replace {n : Nat} {ms : List Nat} (rest : List Nat) (smaller : ∀ m ∈ ms, m < n) :
    Below (ms ++ rest) (n :: rest) := .single (.here smaller)

theorem append_left {bs cs : List Nat} (as : List Nat) (h : Below bs cs) :
    Below (as ++ bs) (as ++ cs) := by
  have lift : ∀ {bs cs}, Descends bs cs → Descends (as ++ bs) (as ++ cs) := by
    intro bs cs h
    induction as with
    | nil => exact h
    | cons a as ih => exact .later ih
  induction h with
  | single h => exact .single (lift h)
  | tail _ h ih => exact .tail ih (lift h)

end Below

/-! ## Replacing statements by lower ones -/

open Stmt

/-- A statement stays as high as it is, or is replaced by lower ones. -/
def Lowers (s : Stmt) (r : List Stmt × Nat) : Prop :=
  (r.2 = 0 → heights r.1 = [s.height]) ∧ (r.2 ≠ 0 → ∀ t ∈ r.1, t.height < s.height)

/-- Some statements stay as high as they are, or their heights descend. -/
def LowersAll (ss : List Stmt) (r : List Stmt × Nat) : Prop :=
  (r.2 = 0 → heights r.1 = heights ss) ∧ (r.2 ≠ 0 → Below (heights r.1) (heights ss))

theorem Lowers.append {s : Stmt} {rest : List Stmt} {a b : List Stmt × Nat} (ha : Lowers s a)
    (hb : LowersAll rest b) : LowersAll (s :: rest) (a.1 ++ b.1, a.2 + b.2) := by
  have smaller : a.2 ≠ 0 → ∀ m ∈ heights a.1, m < s.height := fun h m hm => by
    obtain ⟨t, ht, rfl⟩ := List.mem_map.1 hm
    exact ha.2 h t ht
  have split : heights (a.1 ++ b.1) = heights a.1 ++ heights b.1 := List.map_append ..
  refine ⟨fun h => ?_, fun h => ?_⟩
  · have h1 : a.2 = 0 := by simp only at h; omega
    have h2 : b.2 = 0 := by simp only at h; omega
    rw [split, ha.1 h1, hb.1 h2]
    rfl
  · rw [split]
    by_cases h2 : b.2 = 0
    · have h1 : a.2 ≠ 0 := by simp only at h; omega
      rw [hb.1 h2]
      exact .replace _ (smaller h1)
    · by_cases h1 : a.2 = 0
      · rw [ha.1 h1]
        exact (hb.2 h2).append_left [s.height]
      · exact ((hb.2 h2).append_left _).trans (.replace _ (smaller h1))

theorem lowersAll_nil : LowersAll [] ([], 0) := ⟨fun _ => rfl, fun h => absurd rfl h⟩

/-- Leaving out statements lets the heights descend. -/
theorem below_filter {α : Type} (p : α → Bool) (f : α → Stmt) (xs : List α)
    (h : ∃ x ∈ xs, p x = false) :
    Below (heights ((xs.filter p).map f)) (heights (xs.map f)) := by
  induction xs with
  | nil => simp at h
  | cons x xs ih =>
    cases hx : p x with
    | true =>
      obtain ⟨y, hy, hp⟩ := h
      have hmem : y ∈ xs := by
        rcases List.mem_cons.1 hy with rfl | hy
        · rw [hx] at hp; cases hp
        · exact hy
      rw [List.filter_cons_of_pos hx]
      exact (ih ⟨y, hmem, hp⟩).append_left [(f x).height]
    | false =>
      rw [List.filter_cons_of_neg (by simp [hx])]
      have drop : Below (heights (xs.map f)) (heights ((x :: xs).map f)) :=
        .replace _ (by intro m (hm : m ∈ []); cases hm)
      by_cases hrest : ∃ y ∈ xs, p y = false
      · exact (ih hrest).trans drop
      · have all : xs.filter p = xs := List.filter_eq_self.2 fun y hy => by
          cases hp : p y with
          | true => rfl
          | false => exact absurd ⟨y, hy, hp⟩ hrest
        rw [all]
        exact drop

end PlateModel
