import PlateModel.Expansion.Unroll
import PlateModel.Proofs.Registry.Calls

/-!
# The cells that a reference names

By its indices alone a reference names cells: a position names itself, a range every integer from
its first to its last, and only for a whole axis it counts how far the array reaches. What the
registry selects are these cells, in row-major order, with one exception. If the last integer of a
range is below zero, the range names nothing, but the registry counts its end from the end of the
axis; then it selects whatever lies between.

* `Index.named`, `Index.reached`: the integers that an index names, and those that are selected.
* `axis_eq_reached`: an axis that reaches far enough selects these.
* `reference_selects`: what an accepted reference stands for, in every registry that calls lead to,
  and when these are the cells that it names.
* `reference_counts_back`: a range that names nothing and selects two cells.
-/

namespace PlateModel

namespace Index

/-! ## Integers along one axis -/

/-- The integers that an index names, along an axis of extent `n`, which counts for a whole axis
only. -/
def named (n : Nat) : Index → List Int
  | position i => [i]
  | range start stop _ => integers start (stop - 1)
  | full => indicesTo n
  | bounds .. | other _ => []

/-- The integers that an index selects along an axis of extent `n`: a range whose last integer is
below zero counts it from the end of the axis. -/
def reached (n : Nat) : Index → List Int
  | range start stop _ => integers start (if stop - 1 < 0 then stop - 1 + n else stop - 1)
  | i => i.named n

/-- Whether a range counts its last integer from the end of an axis of extent `n`, and selects
something although it names nothing. -/
def countsBack (n : Nat) : Index → Bool
  | range start stop _ => stop - 1 < 0 && start ≤ stop - 1 + n
  | _ => false

theorem length_integers (a b : Int) : (integers a b).length = (b + 1 - a).toNat := by
  rw [integers, List.length_map, List.length_range]

variable {i : Index} {array : String} {n : Nat}

/-- An axis that reaches far enough for a range has its integers at these offsets. -/
theorem axis_range {start stop step : Int} (hstart : 1 ≤ start) (hn : (stop - 1).toNat ≤ n) :
    (range start stop step).axis n = (range start stop step).reached n := by
  have count : offset n (stop - 1) - offset n (start - 1) =
      ((if stop - 1 < 0 then stop - 1 + n else stop - 1) + 1 - start).toNat := by
    simp only [offset]
    split <;> split <;> omega
  simp only [axis, offsets, reached, integers, List.map_map, count]
  refine List.map_congr_left fun k hk => ?_
  -- if there is an offset at all, the first of them lies within the axis
  have hk := List.mem_range.1 hk
  have first : offset n (start - 1) = (start - 1).toNat := by
    simp only [offset]
    split at hk <;> split <;> omega
  simp only [Function.comp_apply, first, Int.ofNat_eq_natCast]
  omega

theorem one_le_of_check {start stop step : Int} (h : (range start stop step).check array = .ok ()) :
    1 ≤ start := by
  simp only [check] at h
  split at h
  · cases h
  · split at h
    · cases h
    · omega

theorem axis_eq_reached (hi : i.check array = .ok ()) (hn : i.extent n = n) :
    i.axis n = i.reached n := by
  cases i with
  | position i => exact axis_of_isPosition rfl hi n
  | range start stop step =>
    exact axis_range (one_le_of_check hi) (by simp only [extent] at hn; omega)
  | full => rfl
  | bounds | other => rfl

/-- Unless it counts back, an index selects what it names. -/
theorem reached_eq_named (h : i.countsBack n = false) : i.reached n = i.named n := by
  cases i with
  | range start stop step =>
    simp only [countsBack, Bool.and_eq_false_iff, decide_eq_false_iff_not] at h
    simp only [reached, named]
    split
    · -- both ends lie below the start
      rw [List.length_eq_zero_iff.1 ((length_integers ..).trans (by omega)),
        List.length_eq_zero_iff.1 ((length_integers ..).trans (by omega))]
    · rfl
  | _ => rfl

/-- A range that counts back selects more than it names. -/
theorem length_named_lt (hi : i.check array = .ok ()) (h : i.countsBack n) :
    (i.named n).length < (i.reached n).length := by
  cases i with
  | range start stop step =>
    have hstart := one_le_of_check hi
    simp only [countsBack, Bool.and_eq_true, decide_eq_true_eq] at h
    simp only [named, reached, if_pos h.1, length_integers]
    omega
  | _ => cases h

theorem isPosition_of_countsBack (h : i.countsBack n) : i.isPosition = false := by
  cases i with
  | position => cases h
  | _ => rfl

end Index

/-! ## References -/

/-- The extents of a selection along some axes: one for each index that is no position. -/
def extentsAlong (is : List Index) (axes : List (List Int)) : List Nat :=
  (is.zip axes).filterMap fun (i, axis) => if i.isPosition then none else some axis.length

/-- What indices stand for that come to some integers along each axis: one cell if all of them are
positions, else the cells at all tuples of these integers, in row-major order. -/
def Reference.along (array : String) (is : List Index) (axes : List (List Int)) : Reference :=
  if is.all (·.isPosition) then .one ⟨array, is.map (·.toInt)⟩
  else .block (extentsAlong is axes) ((grid axes).map (Cell.mk array))

theorem selectedShape_eq : ∀ (is : List Index) (shape : List Nat),
    selectedShape is shape = extentsAlong is (List.zipWith (fun i n => i.axis n) is shape)
  | [], _ => rfl
  | _ :: _, [] => rfl
  | i :: is, n :: shape => by
    have rest := selectedShape_eq is shape
    simp only [selectedShape, extentsAlong] at rest
    simp only [selectedShape, extentsAlong, List.zip_cons_cons, List.zipWith_cons_cons,
      List.filterMap_cons, rest, Index.axis, List.length_map]

/-- Equal extents are equal index by index. -/
theorem length_eq_of_extentsAlong {f g : Index → Nat → List Int} : ∀ {is : List Index}
    {shape : List Nat},
    extentsAlong is (List.zipWith f is shape) = extentsAlong is (List.zipWith g is shape) →
      ∀ p ∈ is.zip shape, p.1.isPosition = false → (f p.1 p.2).length = (g p.1 p.2).length
  | [], _, _ => by simp
  | _ :: _, [], _ => by simp
  | i :: is, n :: shape, h => by
    simp only [extentsAlong, List.zip_cons_cons, List.zipWith_cons_cons, List.filterMap_cons] at h
    rw [List.zip_cons_cons, List.forall_mem_cons]
    cases hi : i.isPosition with
    | true =>
      simp only [hi, if_true] at h
      exact ⟨nofun, length_eq_of_extentsAlong h⟩
    | false =>
      simp only [hi, Bool.false_eq_true, if_false, List.cons.injEq] at h
      exact ⟨fun _ => h.1, length_eq_of_extentsAlong h.2⟩

section Axes

variable {array : String} {is : List Index} {shape : List Nat}

theorem denoted_eq_along (hi : Accepted array is)
    (hn : List.Forall₂ (fun i n => Index.extent n i = n) is shape) :
    denoted array is shape = .along array is (List.zipWith (fun i n => i.reached n) is shape) := by
  have axes : List.zipWith (fun i n => i.axis n) is shape =
      List.zipWith (fun i n => i.reached n) is shape := by
    induction hn with
    | nil => rfl
    | cons h _ ih =>
      rw [List.zipWith_cons_cons, List.zipWith_cons_cons,
        Index.axis_eq_reached (hi _ (List.mem_cons_self ..)) h,
        ih fun j hj => hi j (List.mem_cons_of_mem _ hj)]
  rw [denoted, Reference.along, selectedShape_eq, axes]

/-- What is selected is what the indices name, if and only if none of them counts back. -/
theorem along_reached_eq_iff (hi : Accepted array is) :
    Reference.along array is (List.zipWith (fun i n => i.reached n) is shape) =
        .along array is (List.zipWith (fun i n => i.named n) is shape) ↔
      ∀ p ∈ is.zip shape, p.1.countsBack p.2 = false := by
  constructor
  · intro heq p hp
    by_contra hback
    have hback : p.1.countsBack p.2 := by simpa using hback
    have hmem := (List.of_mem_zip hp).1
    have hposition := Index.isPosition_of_countsBack hback
    have hnot : is.all (·.isPosition) = false :=
      List.all_eq_false.2 ⟨p.1, hmem, by simp [hposition]⟩
    rw [Reference.along, Reference.along, hnot] at heq
    injection heq with hextents
    have hlength := length_eq_of_extentsAlong hextents p hp hposition
    exact absurd hlength.symm (Nat.ne_of_lt (Index.length_named_lt (hi _ hmem) hback))
  · intro h
    have axes : List.zipWith (fun i n => i.reached n) is shape =
        List.zipWith (fun i n => i.named n) is shape := by
      rw [← List.map_uncurry_zip_eq_zipWith, ← List.map_uncurry_zip_eq_zipWith]
      exact List.map_congr_left fun p hp => Index.reached_eq_named (h p hp)
    rw [axes]

/-- The integers that indices name depend on the extents of whole axes only. -/
theorem zipWith_named_congr : ∀ {is : List Index} {shape shape' : List Nat},
    shape.length = is.length → shape'.length = is.length →
    (∀ k : Nat, is[k]? = some .full → shape[k]? = shape'[k]?) →
    List.zipWith (fun i n => i.named n) is shape = List.zipWith (fun i n => i.named n) is shape'
  | [], _, _, _, _, _ => rfl
  | i :: is, n :: shape, n' :: shape', hs, hs', h => by
    have rest := zipWith_named_congr (Nat.succ.inj hs) (Nat.succ.inj hs') fun k hk => h (k + 1) hk
    have first : i.named n = i.named n' := by
      cases i with
      | full =>
        have := h 0 rfl
        simp only [List.getElem?_cons_zero, Option.some.injEq] at this
        rw [this]
      | _ => rfl
    rw [List.zipWith_cons_cons, List.zipWith_cons_cons, first, rest]

end Axes

namespace Registry

/-- A reference that is accepted in a registry that calls lead to stands for the cells at the
integers that its indices reach. These are the cells that the indices name, if and only if no range
counts back. What they name is the same for every extent of an axis that is not asked for as a
whole; so another reference by these indices, after any other calls, stands for the same cells if
the whole axes have the same extents and nothing counts back there either. -/
theorem reference_selects {calls : List Call} {array : String} {is : List Index} {ref : Reference}
    {r : Registry} (h : (empty.after calls).reference array is = .ok (ref, r)) :
    ∃ shape, r.shape? array = some shape ∧ shape.length = is.length ∧
      ref = .along array is (List.zipWith (fun i n => i.reached n) is shape) ∧
      (ref = .along array is (List.zipWith (fun i n => i.named n) is shape) ↔
        ∀ p ∈ is.zip shape, p.1.countsBack p.2 = false) ∧
      ∀ calls' ref' r' shape', (empty.after calls').reference array is = .ok (ref', r') →
        r'.shape? array = some shape' → (∀ k : Nat, is[k]? = some .full → shape[k]? = shape'[k]?) →
        (∀ p ∈ is.zip shape ++ is.zip shape', p.1.countsBack p.2 = false) → ref' = ref := by
  have selects : ∀ {calls : List Call} {ref : Reference} {r : Registry},
      (empty.after calls).reference array is = .ok (ref, r) → ∃ shape, r.shape? array = some shape ∧
        shape.length = is.length ∧
        ref = .along array is (List.zipWith (fun i n => i.reached n) is shape) := by
    intro calls ref r h
    obtain ⟨hi, hfits, -, rfl, rfl⟩ :=
      (reference_eq_ok (wellFormed_after wellFormed_empty)).1 h
    have hlength := length_needed hfits
    exact ⟨_, by rw [shape?_grown, if_pos rfl], hlength,
      denoted_eq_along hi (extent_needed hlength)⟩
  have hi := ((reference_eq_ok (wellFormed_after wellFormed_empty)).1 h).1
  obtain ⟨shape, hshape, hlength, rfl⟩ := selects h
  refine ⟨shape, hshape, hlength, rfl, along_reached_eq_iff hi, ?_⟩
  intro calls' ref' r' shape' h' hshape' hwhole hforward
  obtain ⟨shape'', hshape'', hlength', rfl⟩ := selects h'
  cases hshape'.symm.trans hshape''
  obtain ⟨hback, hback'⟩ := List.forall_mem_append.1 hforward
  rw [(along_reached_eq_iff hi).2 hback, (along_reached_eq_iff hi).2 hback',
    zipWith_named_congr hlength hlength' hwhole]

/-- Makes the array `m` two cells high and three cells wide. -/
def spanning : List Call := [.reference "m" [.position 2, .position 3]]

/-- The cells of one column are named by a whole axis and a position. -/
theorem reference_selects_column : ∃ ref r,
    (empty.after spanning).reference "m" [.full, .position 3] = .ok (ref, r) ∧
      ref = .block [2] [⟨"m", [1, 3]⟩, ⟨"m", [2, 3]⟩] ∧
      ∃ shape, r.shape? "m" = some shape ∧
        ref = .along "m" [.full, .position 3]
          (List.zipWith (fun (i : Index) n => i.named n) [.full, .position 3] shape) := by
  have hcolumn : (empty.after spanning).reference "m" [.full, .position 3] =
      .ok (.block [2] [⟨"m", [1, 3]⟩, ⟨"m", [2, 3]⟩], empty.after spanning) := rfl
  obtain ⟨shape, hshape, -, -, hnamed, -⟩ := reference_selects hcolumn
  have hextents : (empty.after spanning).shape? "m" = some [2, 3] := rfl
  cases hshape.symm.trans hextents
  exact ⟨_, _, hcolumn, rfl, _, hextents, hnamed.2 (by decide)⟩

/-- In an array of three cells the range from 1 to -1 names nothing, but the first two cells are
selected, since its end is the last cell but one. -/
theorem reference_counts_back : ¬ ∀ (calls : List Call) (array : String) (is : List Index)
    (ref : Reference) (r : Registry) (shape : List Nat),
    (empty.after calls).reference array is = .ok (ref, r) → r.shape? array = some shape →
      ref = .along array is (List.zipWith (fun (i : Index) n => i.named n) is shape) := by
  intro claim
  have hrange : (empty.after [.reference "x" [.position 3]]).reference "x" [.between 1 (-1)] =
      .ok (.block [2] [⟨"x", [1]⟩, ⟨"x", [2]⟩], empty.after [.reference "x" [.position 3]]) := rfl
  have h := claim _ _ _ _ _ [3] hrange rfl
  injection h with hextents
  cases hextents

end Registry

end PlateModel
