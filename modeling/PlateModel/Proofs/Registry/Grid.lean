import Mathlib.Data.List.Forall2
import PlateModel.Registry.Basic

/-!
# Index tuples in row-major order

The cells of an array are listed in row-major order of their index tuples. Selecting along every
axis and copying the cells of a smaller array into a larger one work on blocks of that list; here
they are described by the index tuples themselves.

* `grid`: the tuples that take one index from each of some lists, in row-major order.
* `select_grid`: the selected cells are those at the selected indices.
* `overlay_grid`: a larger array keeps the cells of a smaller one in their places.
-/

namespace PlateModel

/-- The tuples with one index from each list, the last one running fastest. -/
def grid : List (List Int) → List (List Int)
  | [] => [[]]
  | axis :: axes => axis.flatMap fun k => (grid axes).map (k :: ·)

/-- The indices from one to `n`. -/
def indicesTo (n : Nat) : List Int := (List.range n).map fun k => Int.ofNat (k + 1)

theorem mem_indicesTo {n : Nat} {i : Int} : i ∈ indicesTo n ↔ 1 ≤ i ∧ i ≤ n := by
  simp only [indicesTo, List.mem_map, List.mem_range, Int.ofNat_eq_natCast]
  constructor
  · rintro ⟨k, hk, rfl⟩
    omega
  · rintro ⟨h1, h2⟩
    exact ⟨(i - 1).toNat, by omega, by omega⟩

theorem length_positions (shape : List Nat) : (positions shape).length = Shape.size shape := by
  induction shape with
  | nil => rfl
  | cons n shape ih =>
    simp only [positions, List.length_flatMap, List.length_map, ih, List.map_const',
      List.sum_replicate_nat, List.length_range]
    rfl

/-! ## Blocks -/

namespace Shape

variable {α : Type}

/-- Cutting joined blocks of one length apart gives the blocks. -/
theorem blocks_flatten {length : Nat} : ∀ {xss : List (List α)}, (∀ xs ∈ xss, xs.length = length) →
    blocks length xss.length xss.flatten = xss
  | [], _ => rfl
  | xs :: xss, h => by
    have hxs : xs.length = length := h xs (List.mem_cons_self ..)
    have rest : blocks length xss.length xss.flatten = xss :=
      blocks_flatten fun ys hys => h ys (List.mem_cons_of_mem _ hys)
    simp only [List.length_cons, List.flatten_cons, blocks, ← hxs, List.take_left, List.drop_left]
    rw [hxs, rest]

/-- Joining blocks gives what was cut. -/
theorem flatten_blocks {length : Nat} : ∀ {n : Nat} {xs : List α}, xs.length = n * length →
    (blocks length n xs).flatten = xs
  | 0, xs, h => by
    have hxs : xs = [] := List.eq_nil_of_length_eq_zero (by simpa using h)
    simp [blocks, hxs]
  | n + 1, xs, h => by
    have rest : (xs.drop length).length = n * length := by
      rw [List.length_drop, h, Nat.succ_mul, Nat.add_sub_cancel]
    simp only [blocks, List.flatten_cons, flatten_blocks rest, List.take_append_drop]

theorem length_of_mem_blocks {length : Nat} : ∀ {n : Nat} {xs : List α}, xs.length = n * length →
    ∀ ys ∈ blocks length n xs, ys.length = length
  | 0, _, _, _, hy => nomatch hy
  | n + 1, xs, h, ys, hy => by
    have rest : (xs.drop length).length = n * length := by
      rw [List.length_drop, h, Nat.succ_mul, Nat.add_sub_cancel]
    rcases List.mem_cons.1 hy with rfl | hy
    · rw [List.length_take, h, Nat.succ_mul]
      omega
    · exact length_of_mem_blocks rest ys hy

/-- Spreading an array to its own shape changes nothing. -/
theorem spreadSame_self : ∀ {shape : List Nat} {cells : List α}, cells.length = size shape →
    spreadSame shape shape cells = cells
  | [], _, _ => rfl
  | n :: shape, cells, h => by
    have hlen : cells.length = n * size shape := h
    have same : (blocks (size shape) n cells).map (spreadSame shape shape) =
        blocks (size shape) n cells := by
      refine (List.map_congr_left fun xs hxs => ?_).trans (List.map_id _)
      exact spreadSame_self (length_of_mem_blocks hlen xs hxs)
    simp only [spreadSame, if_true, same, flatten_blocks hlen]

theorem spread_self {shape : List Nat} {cells : List α} (h : cells.length = size shape) :
    spread shape shape cells = cells := by
  simp only [spread, Nat.sub_self, List.replicate_zero, List.nil_append, spreadSame_self h]

theorem broadcastReversed?_self : ∀ s : List Nat, broadcastReversed? s s = some s
  | [] => rfl
  | n :: s => by simp [broadcastReversed?, broadcastReversed?_self s]

theorem broadcast?_self (s : List Nat) : broadcast? s s = some s := by
  simp [broadcast?, broadcastReversed?_self]

end Shape

/-! ## Selecting -/

/-- The blocks along the first axis of the cells at all index tuples. -/
theorem blocks_positions {α : Type} (f : List Int → α) (n : Nat) (shape : List Nat) :
    Shape.blocks (Shape.size shape) n ((positions (n :: shape)).map f) =
      (List.range n).map fun k => (positions shape).map fun p => f (Int.ofNat (k + 1) :: p) := by
  have rows : (positions (n :: shape)).map f =
      ((List.range n).map fun k =>
        (positions shape).map fun p => f (Int.ofNat (k + 1) :: p)).flatten := by
    simp only [positions, List.map_flatMap, List.map_map]
    rfl
  have lengths : ∀ xs ∈ (List.range n).map fun k =>
      (positions shape).map fun p => f (Int.ofNat (k + 1) :: p), xs.length = Shape.size shape := by
    intro xs hxs
    obtain ⟨k, -, rfl⟩ := List.mem_map.1 hxs
    rw [List.length_map, length_positions]
  have h := Shape.blocks_flatten lengths
  rw [List.length_map, List.length_range] at h
  rw [rows, h]

/-- The indices that an index selects along an axis of extent `n`. -/
def Index.axis (n : Nat) (i : Index) : List Int := (i.offsets n).map fun k => Int.ofNat (k + 1)

/-- The selected cells are those at the selected indices, if these are within the axes. -/
theorem select_grid {α : Type} : ∀ {is : List Index} {shape : List Nat} (f : List Int → α),
    List.Forall₂ (fun i n => ∀ k ∈ i.offsets n, k < n) is shape →
      select is shape ((positions shape).map f) =
        (grid (List.zipWith (fun i n => i.axis n) is shape)).map f
  | [], [], f, .nil => rfl
  | i :: is, n :: shape, f, .cons hi his => by
    have row {k : Nat} (hk : k < n) :
        (((Shape.blocks (Shape.size shape) n ((positions (n :: shape)).map f))[k]?).map
          (select is shape)).getD [] =
        (grid (List.zipWith (fun i n => i.axis n) is shape)).map
          fun p => f (Int.ofNat (k + 1) :: p) := by
      rw [blocks_positions, List.getElem?_map, List.getElem?_range hk]
      exact select_grid (fun p => f (Int.ofNat (k + 1) :: p)) his
    simp only [select, List.zipWith_cons_cons, grid, Index.axis, List.flatMap_map, List.map_flatMap,
      List.map_map]
    refine List.flatMap_congr fun k hk => ?_
    rw [row (hi k hk)]
    rfl

/-! ## Copying -/

theorem zipWith_map_range {β γ δ : Type} (g : β → γ → δ) (a : Nat → β) (b : Nat → γ) {m n : Nat}
    (h : m ≤ n) :
    List.zipWith g ((List.range m).map a) ((List.range n).map b) =
      (List.range m).map fun k => g (a k) (b k) := by
  apply List.ext_getElem
  · simp [h]
  · intro k h1 h2
    simp

/-- A larger array keeps the cells of a smaller one in their places. -/
theorem overlay_grid {α : Type} : ∀ {inner outer : List Nat} (f : List Int → α),
    List.Forall₂ (· ≤ ·) inner outer →
      overlay inner outer ((positions inner).map f) ((positions outer).map f) =
        (positions outer).map f
  | [], [], f, .nil => rfl
  | m :: inner, n :: outer, f, .cons hmn h => by
    have kept (k : Nat) := overlay_grid (fun p => f (Int.ofNat (k + 1) :: p)) h
    have rows : (positions (n :: outer)).map f = ((List.range n).map fun k =>
        (positions outer).map fun p => f (Int.ofNat (k + 1) :: p)).flatten := by
      rw [← blocks_positions, Shape.flatten_blocks]
      rw [List.length_map, length_positions]
      rfl
    have front : (List.range m).map (fun k =>
          (positions outer).map fun p => f (Int.ofNat (k + 1) :: p)) =
        ((List.range n).map fun k =>
          (positions outer).map fun p => f (Int.ofNat (k + 1) :: p)).take m := by
      rw [← List.map_take, List.take_range, Nat.min_eq_left hmn]
    simp only [overlay, blocks_positions, zipWith_map_range _ _ _ hmn, kept]
    rw [front, ← List.flatten_append, List.take_append_drop, ← rows]

end PlateModel
