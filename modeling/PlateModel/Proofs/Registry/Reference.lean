import PlateModel.Proofs.Computation
import PlateModel.Proofs.Registry.Grid
import PlateModel.Proofs.Table

/-!
# What a reference does to the registry

In a well-formed registry the cells of every array are those of its index tuples, in row-major
order; so all that counts of an array is its shape. A reference makes the array reach as far as its
indices do, leaves all other arrays alone, and stands for the cells at the selected indices. In a
registry whose arrays reach that far already, it changes nothing.

* `WellFormed`: every array lists the cells of its index tuples.
* `Within`: arrays only grow, and keep the number of their axes.
* `reference_eq_ok`: when a reference is accepted, and what it stands for then.
* `reference_mono`: an accepted reference is accepted by every later registry, which it leaves as it
  is.
-/

namespace PlateModel

/-! ## Indices -/

namespace Index

theorem le_extent (i : Index) (n : Nat) : n ≤ i.extent n := by
  cases i <;> simp only [extent] <;> omega

theorem extent_mono {i : Index} {m n : Nat} (h : m ≤ n) : i.extent m ≤ i.extent n := by
  cases i <;> simp only [extent] <;> omega

/-- An axis that reaches far enough stays as it is. -/
theorem extent_eq_self {i : Index} {m n : Nat} (h : i.extent m ≤ n) : i.extent n = n := by
  cases i <;> simp only [extent] at h ⊢ <;> omega

/-- Indices that break no rule select within an axis that reaches far enough for them. -/
theorem lt_of_mem_offsets {i : Index} {array : String} {n : Nat} (hi : i.check array = .ok ())
    (hn : i.extent n = n) : ∀ k ∈ i.offsets n, k < n := by
  intro k hk
  cases i with
  | position i =>
    simp only [check] at hi
    split at hi
    · cases hi
    · simp only [offsets, List.mem_singleton] at hk
      simp only [extent] at hn
      omega
  | range start stop step =>
    simp only [offsets, List.mem_map, List.mem_range] at hk
    obtain ⟨j, hj, rfl⟩ := hk
    have bound : offset n (stop - 1) ≤ n := by
      unfold offset
      split <;> omega
    omega
  | full => simpa [offsets] using hk
  | bounds | other => simp [offsets] at hk

/-- The integer of a position. -/
def toInt : Index → Int
  | position i => i
  | _ => 0

/-- A position that breaks no rule selects itself. -/
theorem axis_of_isPosition {i : Index} {array : String} (hp : i.isPosition)
    (hi : i.check array = .ok ()) (n : Nat) : i.axis n = [i.toInt] := by
  cases i with
  | position i =>
    simp only [check] at hi
    split at hi
    · cases hi
    · simp only [axis, offsets, List.map_cons, List.map_nil, toInt, List.cons.injEq, and_true,
        Int.ofNat_eq_natCast]
      omega
  | _ => cases hp

end Index

/-- Indices of an array none of which breaks a rule. -/
def Accepted (array : String) (is : List Index) : Prop := ∀ i ∈ is, i.check array = .ok ()

theorem forM_check {array : String} : ∀ {is : List Index},
    is.forM (Index.check array) = .ok () ↔ Accepted array is
  | [] => ⟨fun _ => nofun, fun _ => rfl⟩
  | i :: is => by
    show (i.check array >>= fun _ => is.forM (Index.check array)) = .ok () ↔ _
    simp only [bind_eq_ok, Accepted, List.forall_mem_cons]
    constructor
    · rintro ⟨⟨⟩, hi, his⟩
      exact ⟨hi, forM_check.1 his⟩
    · rintro ⟨hi, his⟩
      exact ⟨(), hi, forM_check.2 his⟩

/-- What indices stand for in an array of a shape. -/
def denoted (array : String) (is : List Index) (shape : List Nat) : Reference :=
  if is.all (·.isPosition) then .one ⟨array, is.map (·.toInt)⟩
  else .block (selectedShape is shape)
    ((grid (List.zipWith (fun i n => i.axis n) is shape)).map (Cell.mk array))

/-- Positions stand for one cell, in an array of any shape. -/
theorem denoted_of_positions {array : String} {is : List Index} {shape : List Nat}
    (h : is.all (·.isPosition)) : denoted array is shape = .one ⟨array, is.map (·.toInt)⟩ :=
  if_pos h

theorem grid_positions {array : String} : ∀ {is : List Index} {shape : List Nat},
    is.all (·.isPosition) → Accepted array is → is.length = shape.length →
      grid (List.zipWith (fun i n => i.axis n) is shape) = [is.map (·.toInt)]
  | [], [], _, _, _ => rfl
  | i :: is, n :: shape, hp, hi, hlen => by
    simp only [List.all_cons, Bool.and_eq_true] at hp
    have hrest := grid_positions hp.2 (fun j hj => hi j (List.mem_cons_of_mem _ hj))
      (Nat.succ.inj hlen)
    simp only [List.zipWith_cons_cons, grid, hrest,
      Index.axis_of_isPosition hp.1 (hi i (List.mem_cons_self ..)), List.flatMap_cons,
      List.flatMap_nil, List.map_cons, List.map_nil, List.append_nil]

/-! ## Shapes -/

/-- A shape whose extents are at most those of one that an array can have can be had as well. -/
theorem isAllocatable_mono {s t : List Nat} (h : List.Forall₂ (· ≤ ·) s t)
    (ht : isAllocatable t) : isAllocatable s := by
  have size_le : Shape.size (s.map (max 1)) ≤ Shape.size (t.map (max 1)) := by
    clear ht
    induction h with
    | nil => exact Nat.le_refl _
    | cons hab _ ih =>
      exact Nat.mul_le_mul (by omega) ih
  have hlen := h.length_eq
  simp only [isAllocatable, Bool.and_eq_true, decide_eq_true_eq] at ht ⊢
  omega

namespace Registry

variable {r r' R : Registry} {array : String} {is : List Index}

/-- The shape of an array. -/
def shape? (r : Registry) (array : String) : Option (List Nat) := (r.get? array).map (·.shape)

/-- Every array lists the cells of its index tuples, and is not too large. -/
structure WellFormed (r : Registry) : Prop where
  cells : ∀ {array a}, r.get? array = some a → a.cells = cellsOf array a.shape
  allocatable : ∀ {array a}, r.get? array = some a → isAllocatable a.shape

/-- The arrays of the one registry are in the other, with as many axes, and as far along them. -/
def Within (r r' : Registry) : Prop :=
  ∀ ⦃array s⦄, r.shape? array = some s → ∃ s', r'.shape? array = some s' ∧ List.Forall₂ (· ≤ ·) s s'

theorem Within.refl (r : Registry) : r.Within r :=
  fun _ s h => ⟨s, h, List.forall₂_same.2 fun _ _ => Nat.le_refl _⟩

theorem forall₂_le_trans {s t u : List Nat} (h : List.Forall₂ (· ≤ ·) s t)
    (k : List.Forall₂ (· ≤ ·) t u) : List.Forall₂ (· ≤ ·) s u := by
  induction h generalizing u with
  | nil => exact k
  | cons hab _ ih =>
    cases k with
    | cons hbc hrest => exact .cons (Nat.le_trans hab hbc) (ih hrest)

theorem Within.trans (h : r.Within r') (k : r'.Within R) : r.Within R := by
  intro array s hs
  obtain ⟨t, ht, hst⟩ := h hs
  obtain ⟨u, hu, htu⟩ := k ht
  exact ⟨u, hu, forall₂_le_trans hst htu⟩

/-- The shape that an array must have for some indices. -/
def needed (r : Registry) (array : String) (is : List Index) : List Nat :=
  match r.shape? array with
  | none => is.map (·.extent 0)
  | some s => List.zipWith (fun i n => i.extent n) is s

/-- An array that is known has as many axes as there are indices. -/
def RankFits (r : Registry) (array : String) (is : List Index) : Prop :=
  ∀ {s}, r.shape? array = some s → s.length = is.length

theorem wellFormed_empty : empty.WellFormed := ⟨nofun, nofun⟩

theorem WellFormed.put (hr : r.WellFormed) {shape : List Nat} {g : Nat}
    (hs : isAllocatable shape) :
    WellFormed ⟨r.arrays.put array ⟨shape, cellsOf array shape, g⟩⟩ := by
  have entry {name : String} {a : SymbolArray}
      (h : get? ⟨r.arrays.put array ⟨shape, cellsOf array shape, g⟩⟩ name = some a) :
      (name = array ∧ a = ⟨shape, cellsOf array shape, g⟩) ∨ r.get? name = some a := by
    simp only [get?, Assoc.get?_put] at h
    split at h
    · next heq => cases h; exact .inl ⟨heq, rfl⟩
    · exact .inr h
  constructor
  · intro name a h
    rcases entry h with ⟨rfl, rfl⟩ | h
    · rfl
    · exact hr.cells h
  · intro name a h
    rcases entry h with ⟨rfl, rfl⟩ | h
    · exact hs
    · exact hr.allocatable h

theorem WellFormed.register (hr : r.WellFormed) {name : String} {shape : List Int}
    (h : r.register name shape = .ok r') : r'.WellFormed := by
  unfold Registry.register at h
  split at h
  · cases h
  · split at h
    · cases h
    · unfold allocate at h
      split at h
      · next hshape =>
        cases h
        exact hr.put hshape
      · cases h

theorem shape?_put {shape : List Nat} {cells : List Cell} {g : Nat} (name : String) :
    shape? ⟨r.arrays.put array ⟨shape, cells, g⟩⟩ name =
      if name = array then some shape else r.shape? name := by
  simp only [shape?, get?, Assoc.get?_put]
  split <;> rfl

/-! ## Growth -/

/-- An array enlarged to a shape that reaches as far along every axis. -/
theorem enlarge_eq (hr : r.WellFormed) {a : SymbolArray} (ha : r.get? array = some a)
    {shape : List Nat} (hs : List.Forall₂ (· ≤ ·) a.shape shape) :
    enlarge array a shape =
      if isAllocatable shape then .ok ⟨shape, cellsOf array shape, a.generation + 1⟩
      else .error (.evaluation .unsuitableValue) := by
  have hlen := hs.length_eq
  have hcells := hr.cells ha
  have hcorner : a.shape ++ shape.drop a.shape.length = a.shape := by
    rw [hlen, List.drop_length, List.append_nil]
  have hkept : Shape.spread a.shape a.shape a.cells = cellsOf array a.shape := by
    rw [Shape.spread_self, hcells]
    rw [hcells, cellsOf, List.length_map, length_positions]
  have hlt : ¬ shape.length < a.shape.length := by omega
  simp only [enlarge, hcorner, Shape.broadcast?_self, if_true, hkept, hlt, if_false]
  cases isAllocatable shape with
  | false => rfl
  | true =>
    simp only [Bool.not_true, Bool.false_eq_true, if_false, if_true]
    rw [cellsOf, cellsOf, overlay_grid _ hs]

theorem forall₂_needed (h : r.RankFits array is) {s : List Nat} (hs : r.shape? array = some s) :
    List.Forall₂ (· ≤ ·) s (r.needed array is) := by
  have hlen := h hs
  simp only [needed, hs]
  clear hs h
  induction s generalizing is with
  | nil => cases is with
    | nil => exact .nil
    | cons => cases hlen
  | cons n s ih => cases is with
    | nil => cases hlen
    | cons i is => exact .cons (i.le_extent n) (ih (Nat.succ.inj hlen))

theorem length_needed (h : r.RankFits array is) : (r.needed array is).length = is.length := by
  cases hs : r.shape? array with
  | none => simp [needed, hs]
  | some s => simpa [h hs] using (forall₂_needed h hs).length_eq.symm

/-- The registry with an array that reaches far enough for some indices. -/
def grown (r : Registry) (array : String) (is : List Index) : Registry :=
  let shape := r.needed array is
  match r.get? array with
  | none => ⟨r.arrays.put array ⟨shape, cellsOf array shape, 0⟩⟩
  | some a =>
    if shape = a.shape then r
    else ⟨r.arrays.put array ⟨shape, cellsOf array shape, a.generation + 1⟩⟩

theorem WellFormed.grown (hr : r.WellFormed) (h : isAllocatable (r.needed array is)) :
    (r.grown array is).WellFormed := by
  unfold Registry.grown
  dsimp only
  split
  · exact hr.put h
  · split
    · exact hr
    · exact hr.put h

/-- Growing changes the shape of no other array. -/
theorem shape?_grown (name : String) :
    (r.grown array is).shape? name =
      if name = array then some (r.needed array is) else r.shape? name := by
  unfold grown
  dsimp only
  split
  · exact shape?_put name
  · next a ha =>
    split
    · next heq =>
      split
      · next hname => rw [hname, heq, shape?, ha]; rfl
      · rfl
    · exact shape?_put name

theorem within_grown (h : r.RankFits array is) : r.Within (r.grown array is) := by
  intro name s hs
  rw [shape?_grown]
  split
  · next hname =>
    subst hname
    exact ⟨_, rfl, forall₂_needed h hs⟩
  · exact ⟨s, hs, List.forall₂_same.2 fun _ _ => Nat.le_refl _⟩

/-- Making an array reach far enough for some indices: their number must fit, and the array must
not become too large. -/
theorem reach_eq_ok (hr : r.WellFormed) :
    r.reach array is = .ok r' ↔
      r.RankFits array is ∧ isAllocatable (r.needed array is) ∧ r' = r.grown array is := by
  cases ha : r.get? array with
  | none =>
    have hshape : r.shape? array = none := by rw [shape?, ha]; rfl
    have hfits : r.RankFits array is := fun hs => by rw [hshape] at hs; cases hs
    have hneeded : r.needed array is = is.map (·.extent 0) := by simp only [needed, hshape]
    simp only [reach, ha, allocate, grown, ← hneeded]
    split
    · next h => exact ⟨fun e => ⟨hfits, h, by cases e; rfl⟩, fun ⟨_, _, e⟩ => by rw [e]⟩
    · next h => exact ⟨nofun, fun ⟨_, h', _⟩ => absurd h' h⟩
  | some a =>
    have hshape : r.shape? array = some a.shape := by rw [shape?, ha]; rfl
    have hneeded : r.needed array is = List.zipWith (fun i n => i.extent n) is a.shape := by
      simp only [needed, hshape]
    simp only [reach, ha, grown, ← hneeded]
    split
    · next hlen => exact ⟨nofun, fun ⟨hfits, _, _⟩ => absurd (hfits hshape) hlen⟩
    · next hlen =>
      have hfits : r.RankFits array is := fun hs => by
        rw [hshape] at hs
        cases hs
        exact Decidable.not_not.1 hlen
      split
      · next heq =>
        have halloc : isAllocatable (r.needed array is) := by rw [heq]; exact hr.allocatable ha
        exact ⟨fun e => ⟨hfits, halloc, by cases e; rfl⟩, fun ⟨_, _, e⟩ => by rw [e]⟩
      · rw [enlarge_eq hr ha (forall₂_needed hfits hshape)]
        split
        · next h => exact ⟨fun e => ⟨hfits, h, by cases e; rfl⟩, fun ⟨_, _, e⟩ => by rw [e]; rfl⟩
        · next h => exact ⟨nofun, fun ⟨_, h', _⟩ => absurd h' h⟩

/-! ## References -/

theorem extent_needed : (r.needed array is).length = is.length →
    List.Forall₂ (fun i n => Index.extent n i = n) is (r.needed array is) := by
  have fixed : ∀ {is : List Index} {s : List Nat},
      (List.zipWith (fun i n => i.extent n) is s).length = is.length →
      List.Forall₂ (fun i n => Index.extent n i = n) is
        (List.zipWith (fun i n => i.extent n) is s) := by
    intro is
    induction is with
    | nil => intro s _; exact .nil
    | cons i is ih =>
      intro s h
      cases s with
      | nil => cases h
      | cons n s => exact .cons (Index.extent_eq_self (Nat.le_refl _)) (ih (Nat.succ.inj h))
  intro h
  cases hs : r.shape? array with
  | some s =>
    simp only [needed, hs] at h ⊢
    exact fixed h
  | none =>
    simp only [needed, hs]
    clear h hs
    induction is with
    | nil => exact .nil
    | cons i is ih => exact .cons (Index.extent_eq_self (Nat.le_refl _)) ih

/-- What the selection in an array that reaches far enough makes of accepted indices. -/
theorem select_eq_denoted {shape : List Nat} (hi : Accepted array is)
    (hs : List.Forall₂ (fun i n => Index.extent n i = n) is shape) :
    (match is.all (·.isPosition), select is shape (cellsOf array shape) with
      | true, [c] => Reference.one c
      | _, _ => .block (selectedShape is shape) (select is shape (cellsOf array shape))) =
      denoted array is shape := by
  have inside : List.Forall₂ (fun i n => ∀ k ∈ Index.offsets n i, k < n) is shape := by
    induction hs with
    | nil => exact .nil
    | cons h _ ih =>
      exact .cons (Index.lt_of_mem_offsets (hi _ (List.mem_cons_self ..)) h)
        (ih fun j hj => hi j (List.mem_cons_of_mem _ hj))
  rw [cellsOf, select_grid _ inside, denoted]
  cases hp : is.all (·.isPosition) with
  | false => rfl
  | true => rw [grid_positions hp hi hs.length_eq]; rfl

/-- An array that has grown lists the cells of its new shape. -/
theorem find_grown (hr : r.WellFormed) (halloc : isAllocatable (r.needed array is)) :
    ∃ a, (r.grown array is).find array = .ok a ∧ a.shape = r.needed array is ∧
      a.cells = cellsOf array (r.needed array is) := by
  have hshape := @shape?_grown r array is array
  rw [if_pos rfl, shape?, Option.map_eq_some_iff] at hshape
  obtain ⟨a, ha, hs⟩ := hshape
  refine ⟨a, by simp only [find, ha], hs, ?_⟩
  rw [(hr.grown halloc).cells ha, hs]

/-- When a reference is accepted, and what it does and stands for then. -/
theorem reference_eq_ok (hr : r.WellFormed) {ref : Reference} :
    r.reference array is = .ok (ref, r') ↔
      Accepted array is ∧ r.RankFits array is ∧ isAllocatable (r.needed array is) ∧
        r' = r.grown array is ∧ ref = denoted array is (r.needed array is) := by
  have reference_of {a : SymbolArray} (hi : Accepted array is) (hfits : r.RankFits array is)
      (hs : a.shape = r.needed array is) (hc : a.cells = cellsOf array (r.needed array is)) :
      (match is.all (·.isPosition), select is a.shape a.cells with
        | true, [c] => pure (Reference.one c, r.grown array is)
        | _, _ => pure (.block (selectedShape is a.shape) (select is a.shape a.cells),
            r.grown array is) : Except Fault (Reference × Registry)) =
        .ok (denoted array is (r.needed array is), r.grown array is) := by
    rw [← select_eq_denoted hi (extent_needed (r := r) (length_needed hfits)), hs, hc]
    split <;> rfl
  simp only [reference, bind_eq_ok, reach_eq_ok hr]
  constructor
  · rintro ⟨⟨⟩, hi, _, ⟨hfits, halloc, rfl⟩, a, ha, h⟩
    obtain ⟨b, hb, hshape, hcells⟩ := find_grown hr halloc
    rw [hb] at ha
    cases ha
    have h' := (reference_of (forM_check.1 hi) hfits hshape hcells).symm.trans h
    cases h'
    exact ⟨forM_check.1 hi, hfits, halloc, rfl, rfl⟩
  · rintro ⟨hi, hfits, halloc, rfl, rfl⟩
    obtain ⟨b, hb, hshape, hcells⟩ := find_grown hr halloc
    exact ⟨(), forM_check.2 hi, _, ⟨hfits, halloc, rfl⟩, b, hb,
      reference_of hi hfits hshape hcells⟩

/-- A reference changes nothing in a registry whose array reaches far enough. -/
theorem grown_eq_self {s : List Nat} (hs : r.shape? array = some s)
    (hn : r.needed array is = s) : r.grown array is = r := by
  obtain ⟨a, ha, hshape⟩ := Option.map_eq_some_iff.1 hs
  simp only [grown, ha]
  rw [if_pos (hn.trans hshape.symm)]

theorem zipWith_extent {s S : List Nat}
    (h : List.Forall₂ (fun i n => Index.extent n i = n) is s) (hle : List.Forall₂ (· ≤ ·) s S) :
    List.zipWith (fun i n => i.extent n) is S = S := by
  induction h generalizing S with
  | nil => cases hle; rfl
  | cons hi _ ih =>
    cases hle with
    | cons hmn hrest =>
      rw [List.zipWith_cons_cons, ih hrest, Index.extent_eq_self (by rwa [hi])]

/-- In a later registry an array reaches far enough for every reference that was accepted. -/
theorem needed_of_within (hfits : r.RankFits array is) (hR : (r.grown array is).Within R) :
    ∃ S, R.shape? array = some S ∧ R.needed array is = S ∧ R.RankFits array is := by
  obtain ⟨S, hS, hle⟩ := hR (by rw [shape?_grown, if_pos rfl])
  refine ⟨S, hS, ?_, fun h => ?_⟩
  · simp only [needed, hS]
    exact zipWith_extent (extent_needed (r := r) (length_needed hfits)) hle
  · rw [hS] at h
    cases h
    rw [← hle.length_eq, length_needed hfits]

/-- An accepted reference is accepted by every later registry, which it leaves as it is. -/
theorem reference_mono (hr : r.WellFormed) (hR : R.WellFormed) {ref : Reference}
    (h : r.reference array is = .ok (ref, r')) (hle : r'.Within R) :
    ∃ S, R.shape? array = some S ∧ R.reference array is = .ok (denoted array is S, R) := by
  obtain ⟨hi, hfits, halloc, rfl, rfl⟩ := (reference_eq_ok hr).1 h
  obtain ⟨S, hS, hneeded, hfits'⟩ := needed_of_within hfits hle
  obtain ⟨a, ha, hshape⟩ := Option.map_eq_some_iff.1 hS
  refine ⟨S, hS, (reference_eq_ok hR).2 ⟨hi, hfits', ?_, ?_, ?_⟩⟩
  · rw [hneeded, ← hshape]
    exact hR.allocatable ha
  · rw [grown_eq_self hS hneeded]
  · rw [hneeded]

theorem needed_le (hle : r.Within R) (hfits : R.RankFits array is) {S : List Nat}
    (hS : R.shape? array = some S) :
    List.Forall₂ (· ≤ ·) (r.needed array is) (R.needed array is) := by
  have hlen := hfits hS
  have pointwise : ∀ {is : List Index} {s S : List Nat}, S.length = is.length →
      List.Forall₂ (· ≤ ·) s S → List.Forall₂ (· ≤ ·)
        (List.zipWith (fun i n => i.extent n) is s)
        (List.zipWith (fun i n => i.extent n) is S) := by
    intro is s S hlen h
    induction h generalizing is with
    | nil => cases is <;> exact .nil
    | cons hmn _ ih =>
      cases is with
      | nil => exact .nil
      | cons i is => exact .cons (Index.extent_mono hmn) (ih (Nat.succ.inj hlen))
  have fromZero : ∀ {is : List Index} {S : List Nat}, S.length = is.length →
      List.Forall₂ (· ≤ ·) (is.map (·.extent 0)) (List.zipWith (fun i n => i.extent n) is S) := by
    intro is
    induction is with
    | nil => intro S _; exact .nil
    | cons i is ih =>
      intro S hlen
      cases S with
      | nil => cases hlen
      | cons n S => exact .cons (Index.extent_mono (Nat.zero_le n)) (ih (Nat.succ.inj hlen))
  cases hs : r.shape? array with
  | none =>
    simp only [needed, hs, hS]
    exact fromZero hlen
  | some s =>
    obtain ⟨S', hS', hle'⟩ := hle hs
    rw [hS] at hS'
    cases hS'
    simp only [needed, hs, hS]
    exact pointwise hlen hle'

/-- A reference that a later registry accepts without changing is accepted, and keeps the registry
within the later one. -/
theorem reference_within (hr : r.WellFormed) (hR : R.WellFormed) (hle : r.Within R)
    {ref : Reference} (h : R.reference array is = .ok (ref, R)) :
    ∃ s r', r.reference array is = .ok (denoted array is s, r') ∧ r'.Within R := by
  obtain ⟨hi, hfits, halloc, hgrown, -⟩ := (reference_eq_ok hR).1 h
  have hS : R.shape? array = some (R.needed array is) := by
    rw [hgrown, shape?_grown, if_pos rfl, ← hgrown]
  have hneeded := needed_le hle hfits hS
  have hfits' : r.RankFits array is := by
    intro s hs
    obtain ⟨S, hS', hsS⟩ := hle hs
    rw [hsS.length_eq, hfits hS']
  refine ⟨_, _, (reference_eq_ok hr).2
    ⟨hi, hfits', isAllocatable_mono hneeded halloc, rfl, rfl⟩, ?_⟩
  intro name s hs
  rw [shape?_grown] at hs
  split at hs
  · next hname =>
    cases hs
    subst hname
    exact ⟨_, hS, hneeded⟩
  · exact hle hs

end Registry

end PlateModel
