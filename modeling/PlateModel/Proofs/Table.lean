import Mathlib.Data.List.Nodup
import Mathlib.Data.List.Perm.Subperm
import PlateModel.Assoc

/-!
# Tables as finite maps

* `eraseDups_of_nodup`: a list without doubles, like the keys of a table, has none to be erased.
* `mem_of_get?`: what a table holds under a key is one of its entries.
* `size_put_of_fresh`: a new key makes a table larger by one.
* `size_le_of_get?`: a part of a table is no larger than the table.
-/

namespace PlateModel

theorem eraseDups_of_nodup {α : Type} [DecidableEq α] : ∀ {xs : List α}, xs.Nodup →
    xs.eraseDups = xs
  | [], _ => rfl
  | x :: xs, h => by
    obtain ⟨hx, hxs⟩ := List.nodup_cons.1 h
    have hrest : xs.filter (fun y => !y == x) = xs :=
      List.filter_eq_self.2 fun y hy => by simp [ne_of_mem_of_not_mem hy hx]
    rw [List.eraseDups_cons, hrest, eraseDups_of_nodup hxs]

namespace Assoc

variable {α : Type} {t : Assoc α} {k j : String} {v : α}

/-- What a table holds under a key is one of its entries. -/
theorem mem_of_get? (h : t.get? k = some v) : (k, v) ∈ t.entries := by
  obtain ⟨l₁, l₂, hl, -⟩ := List.lookup_eq_some_iff.1 h
  rw [hl]
  exact List.mem_append_right _ (List.mem_cons_self ..)

theorem mem_keys_iff : k ∈ t.keys ↔ ∃ v, t.get? k = some v := by
  constructor
  · intro h
    obtain ⟨p, hp, rfl⟩ := List.mem_map.1 h
    exact Option.isSome_iff_exists.1 (List.lookup_isSome_iff.2 ⟨p, hp, beq_self_eq_true _⟩)
  · rintro ⟨v, h⟩
    exact List.mem_map.2 ⟨(k, v), mem_of_get? h, rfl⟩

/-- The entries of a table without double keys are what it holds. -/
theorem get?_of_mem (ht : t.keys.Nodup) (h : (k, v) ∈ t.entries) : t.get? k = some v := by
  obtain ⟨w, hw⟩ := mem_keys_iff.1 (List.mem_map_of_mem (f := (·.1)) h)
  have heq := List.inj_on_of_nodup_map ht h (mem_of_get? hw) rfl
  rw [(Prod.mk.inj heq).2]
  exact hw

theorem contains_iff : t.contains k ↔ ∃ v, t.get? k = some v := Option.isSome_iff_exists

theorem mem_keys_iff_contains : k ∈ t.keys ↔ t.contains k := mem_keys_iff.trans contains_iff.symm

theorem get?_eq_none (h : t.contains k = false) : t.get? k = none :=
  Option.not_isSome_iff_eq_none.1 (Bool.not_eq_true _ ▸ h)

theorem contains_eq_false_iff : t.contains k = false ↔ ∀ v, t.get? k ≠ some v := by
  rw [← Bool.not_eq_true, contains_iff, not_exists]

/-- What the larger table does not hold, the smaller one does not. -/
theorem contains_eq_false_of_get? {t' : Assoc α} (h : ∀ {v}, t.get? k = some v → t'.get? k = some v)
    (ht' : t'.contains k = false) : t.contains k = false :=
  contains_eq_false_iff.2 fun v hv => contains_eq_false_iff.1 ht' v (h hv)

@[simp] theorem get?_put_self : (t.put k v).get? k = some v := by rw [get?_put, if_pos rfl]

theorem get?_put_of_ne (h : j ≠ k) : (t.put k v).get? j = t.get? j := by rw [get?_put, if_neg h]

/-- What a table holds is still there after a new key has been put. -/
theorem get?_put_of_fresh {w : α} (hk : t.get? k = none) (hj : t.get? j = some w) :
    (t.put k v).get? j = some w := by
  rw [get?_put_of_ne, hj]
  rintro rfl
  rw [hk] at hj
  cases hj

theorem keys_put_of_fresh (hk : t.get? k = none) : (t.put k v).keys = t.keys ++ [k] := by
  rw [keys_put, if_neg]
  rw [mem_keys_iff]
  rintro ⟨w, hw⟩
  rw [hk] at hw
  cases hw

/-- A new key makes a table larger by one. -/
theorem size_put_of_fresh (hk : t.get? k = none) : (t.put k v).size = t.size + 1 := by
  have h := congrArg List.length (keys_put_of_fresh (v := v) hk)
  simpa only [keys, size, List.length_map, List.length_append, List.length_singleton] using h

/-- What is erased is gone, and nothing else. -/
theorem get?_erase : (t.erase k).get? j = if j = k then none else t.get? j := by
  obtain ⟨es⟩ := t
  simp only [erase, get?]
  induction es with
  | nil => simp
  | cons e es ih =>
    obtain ⟨i, w⟩ := e
    by_cases hi : i = k
    · rw [List.filter_cons_of_neg (by simp [hi]), ih, List.lookup_cons]
      by_cases hj : j = k
      · simp [hj]
      · have hb : (j == i) = false := by simpa [hi] using hj
        simp [hj, hb]
    · rw [List.filter_cons_of_pos (by simp [hi]), List.lookup_cons, List.lookup_cons, ih]
      by_cases hj : j = i
      · simp [hj, hi]
      · have hb : (j == i) = false := by simpa using hj
        simp [hb]

theorem contains_put : (t.put k v).contains j ↔ j = k ∨ t.contains j := by
  unfold contains
  rw [get?_put]
  split
  · next h => simp [h]
  · next h => simp [h]

/-- No key is there twice after a value has been put. -/
theorem nodup_put (ht : t.keys.Nodup) : (t.put k v).keys.Nodup := by
  rw [keys_put]
  split
  · exact ht
  · next hk =>
    refine List.nodup_append.2 ⟨ht, by simp, ?_⟩
    rintro j hj _ hk' rfl
    exact hk (List.mem_singleton.1 hk' ▸ hj)

/-- Pairs with different keys that are all new are put one after the other. -/
theorem entries_foldl_put : ∀ {l : List (String × α)} {t : Assoc α},
    (l.map (·.1)).Nodup → (∀ p ∈ l, p.1 ∉ t.keys) →
      (l.foldl (fun t (k, v) => t.put k v) t).entries = t.entries ++ l
  | [], t, _, _ => (List.append_nil _).symm
  | (k, v) :: l, t, hnodup, hfresh => by
    obtain ⟨hkl, hnodup⟩ := List.nodup_cons.1 hnodup
    obtain ⟨hk, hfresh⟩ := List.forall_mem_cons.1 hfresh
    have hkeys : (t.put k v).keys = t.keys ++ [k] := by rw [keys_put, if_neg hk]
    rw [List.foldl_cons, entries_foldl_put hnodup, entries_put_of_not_mem v hk,
      List.append_assoc]
    · rfl
    · intro p hp hmem
      rw [hkeys] at hmem
      rcases List.mem_append.1 hmem with hmem | hmem
      · exact hfresh p hp hmem
      · exact hkl (List.mem_map.2 ⟨p, hp, List.mem_singleton.1 hmem⟩)

/-- What is left when keys are erased. -/
theorem entries_foldl_erase (ks : List String) (t : Assoc α) :
    (ks.foldl erase t).entries = t.entries.filter fun e => e.1 ∉ ks := by
  induction ks generalizing t with
  | nil => simp
  | cons k ks ih =>
    rw [List.foldl_cons, ih, erase, List.filter_filter]
    refine List.filter_congr fun e _ => ?_
    by_cases hek : e.1 = k <;> simp [hek]

theorem entries_ofList {l : List (String × α)} (h : (l.map (·.1)).Nodup) :
    (ofList l).entries = l := entries_foldl_put (t := empty) h nofun

theorem get?_ofList {l : List (String × α)} (h : (l.map (·.1)).Nodup) (hkv : (k, v) ∈ l) :
    (ofList l).get? k = some v :=
  get?_of_mem (by rwa [keys, entries_ofList h]) (by rwa [entries_ofList h])

theorem contains_ofList {l : List (String × α)} (h : (l.map (·.1)).Nodup) :
    (ofList l).contains k ↔ k ∈ l.map (·.1) := by
  rw [← mem_keys_iff_contains, keys, entries_ofList h]

section Map

variable {β : Type} {f : α → β}

theorem values_map : (t.map f).values = t.values.map f := by
  simp [values, map, Function.comp_def]

theorem map_ofList {l : List (String × α)} :
    (ofList l).map f = ofList (l.map fun (k, v) => (k, f v)) := by
  have hfold : ∀ (l : List (String × α)) (t : Assoc α),
      (l.foldl (fun t (k, v) => t.put k v) t).map f =
        (l.map fun (k, v) => (k, f v)).foldl (fun t (k, v) => t.put k v) (t.map f) := by
    intro l
    induction l with
    | nil => exact fun t => rfl
    | cons p l ih =>
      exact fun t => by rw [List.foldl_cons, ih, map_put, List.map_cons, List.foldl_cons]
  exact hfold l empty

end Map

/-- A table without double keys is no larger than a table that holds as much. -/
theorem size_le_of_get? {t' : Assoc α} (ht : t.keys.Nodup)
    (h : ∀ {k v}, t.get? k = some v → t'.get? k = some v) : t.size ≤ t'.size := by
  have hsubset : t.keys ⊆ t'.keys := by
    intro k hk
    obtain ⟨v, hv⟩ := mem_keys_iff.1 hk
    exact mem_keys_iff.2 ⟨v, h hv⟩
  simpa only [keys, size, List.length_map] using (List.subperm_of_subset ht hsubset).length_le

end Assoc

end PlateModel
