import PlateModel.Proofs.Registry.Reference
import PlateModel.Resolution.Lowering

/-!
# The registry over a sequence of calls

A registry is used by calls: one makes room for an array of data, the other refers to an array. Here
a call is taken apart into the steps in which it proceeds, with the registry as a state that keeps
what has been stored even if a later step fails. In every registry that calls lead to, such a call
is what `Registry.register` and `Registry.reference` say; in particular nothing fails once something
has been stored.

* `Call.perform`, `after`: a call step by step, and the registry after a sequence of calls.
* `Shape.offset`: where a cell is, in row-major order.
* `shapeChanges`: how often the shape of an array changes.
* `Next`, `next_perform`: what one call can do to an array.
* `registry_after_calls`: the cells, shapes, generations and handles after any sequence of calls.
-/

namespace PlateModel

/-! ## Where a cell is -/

namespace Shape

/-- Where the cell at a position is, in row-major order; positions count from zero here. -/
def offset : List Nat → List Nat → Nat
  | _ :: shape, k :: p => k * size shape + offset shape p
  | _, _ => 0

theorem offset_lt {p shape : List Nat} (h : List.Forall₂ (· < ·) p shape) :
    offset shape p < size shape := by
  induction h with
  | nil => exact Nat.one_pos
  | @cons k n p shape hk _ ih =>
    calc k * size shape + offset shape p < k * size shape + size shape := Nat.add_lt_add_left ih _
      _ = (k + 1) * size shape := (Nat.succ_mul k _).symm
      _ ≤ n * size shape := Nat.mul_le_mul_right _ hk

/-- Within joined blocks of one length, a block and a place in it are found by division. -/
theorem getElem?_flatten_of_length {α : Type} {length j : Nat} (hj : j < length) :
    ∀ {xss : List (List α)} {k : Nat} {xs : List α}, (∀ xs ∈ xss, xs.length = length) →
      xss[k]? = some xs → xss.flatten[k * length + j]? = xs[j]?
  | [], _, _, _, hk => nomatch hk
  | ys :: xss, 0, xs, h, hk => by
    cases hk
    have hys : j < ys.length := by rw [h ys (List.mem_cons_self ..)]; exact hj
    rw [List.flatten_cons, Nat.zero_mul, Nat.zero_add, List.getElem?_append_left hys]
  | ys :: xss, k + 1, xs, h, hk => by
    have hys : ys.length = length := h ys (List.mem_cons_self ..)
    have past : (k + 1) * length + j = ys.length + (k * length + j) := by
      rw [hys, Nat.succ_mul]
      omega
    rw [List.flatten_cons, past, List.getElem?_append_right (Nat.le_add_right _ _),
      Nat.add_sub_cancel_left]
    exact getElem?_flatten_of_length hj (fun zs hzs => h zs (List.mem_cons_of_mem _ hzs)) hk

end Shape

/-- The index tuple at a position is the position with one added along every axis. -/
theorem getElem?_positions {p shape : List Nat} (h : List.Forall₂ (· < ·) p shape) :
    (positions shape)[Shape.offset shape p]? = some (p.map fun k => Int.ofNat (k + 1)) := by
  induction h with
  | nil => rfl
  | @cons k n p shape hk hp ih =>
    have blocks : positions (n :: shape) =
        ((List.range n).map fun k => (positions shape).map (Int.ofNat (k + 1) :: ·)).flatten := rfl
    have lengths : ∀ xs ∈ (List.range n).map fun k =>
        (positions shape).map (Int.ofNat (k + 1) :: ·), xs.length = Shape.size shape := by
      intro xs hxs
      obtain ⟨k, -, rfl⟩ := List.mem_map.1 hxs
      rw [List.length_map, length_positions]
    have block : ((List.range n).map fun k => (positions shape).map (Int.ofNat (k + 1) :: ·))[k]? =
        some ((positions shape).map (Int.ofNat (k + 1) :: ·)) := by
      rw [List.getElem?_map, List.getElem?_range hk]
      rfl
    rw [blocks, Shape.offset,
      Shape.getElem?_flatten_of_length (Shape.offset_lt hp) lengths block, List.getElem?_map, ih]
    rfl

/-- At every position an array has the cell of its name and of that position; positions count from
zero here, and indices from one. -/
def SymbolArray.InPlace (array : String) (a : SymbolArray) : Prop :=
  a.cells.length = Shape.size a.shape ∧
    ∀ p, List.Forall₂ (· < ·) p a.shape →
      a.cells[Shape.offset a.shape p]? = some ⟨array, p.map fun k => Int.ofNat (k + 1)⟩

theorem inPlace_of_cells {array : String} {a : SymbolArray} (h : a.cells = cellsOf array a.shape) :
    a.InPlace array := by
  constructor
  · rw [h, cellsOf, List.length_map, length_positions]
  · intro p hp
    rw [h, cellsOf, List.getElem?_map, getElem?_positions hp]
    rfl

/-! ## Calls step by step -/

namespace Index

/-- The last position that an index names, if it names one. -/
def upper? : Index → Option Int
  | position i => some i
  | range _ stop _ => some (stop - 1)
  | full | bounds .. | other _ => none

/-- Whether an axis of extent `n` has the position that an index names. -/
def isInside (i : Index) (n : Nat) : Bool :=
  match i with
  | position i => 1 ≤ i && i ≤ n
  | _ => true

theorem isInside_of_check {i : Index} {array : String} {n : Nat} (hi : i.check array = .ok ())
    (hn : i.extent n = n) : i.isInside n := by
  cases i with
  | position i =>
    simp only [check] at hi
    split at hi
    · cases hi
    · simp only [extent] at hn
      simp only [isInside, Bool.and_eq_true, decide_eq_true_eq]
      omega
  | _ => rfl

theorem upper_le_of_extent {i : Index} {n : Nat} (hn : i.extent n = n) :
    ∀ u ∈ i.upper?, u ≤ n := by
  intro u hu
  cases i with
  | position | range =>
    cases hu
    simp only [extent] at hn
    omega
  | _ => cases hu

end Index

/-- The cells of an array at some indices: one for each axis, and every position within its axis. -/
def SymbolArray.at (a : SymbolArray) (is : List Index) : Except Fault Reference :=
  if is.length = a.shape.length ∧ (is.zip a.shape).all fun (i, n) => i.isInside n then
    .ok <| match is.all (·.isPosition), select is a.shape a.cells with
      | true, [c] => .one c
      | _, _ => .block (selectedShape is a.shape) (select is a.shape a.cells)
  else .error (.evaluation .outOfBounds)

theorem at_eq_ok {array : String} {is : List Index} {a : SymbolArray} (hi : Accepted array is)
    (hn : List.Forall₂ (fun i n => Index.extent n i = n) is a.shape)
    (ha : a.cells = cellsOf array a.shape) : a.at is = .ok (denoted array is a.shape) := by
  have inside : (is.zip a.shape).all fun (i, n) => i.isInside n := by
    rw [List.all_eq_true]
    rintro ⟨i, n⟩ h
    exact Index.isInside_of_check (hi i (List.of_mem_zip h).1) (List.forall₂_iff_zip.1 hn |>.2 h)
  rw [SymbolArray.at, if_pos ⟨hn.length_eq, inside⟩, ha]
  exact congrArg Except.ok (Registry.select_eq_denoted hi hn)

namespace Registry

/-- A call on a registry. -/
inductive Call
  /-- Makes room for an array of data. -/
  | register (array : String) (shape : List Int)
  /-- Asks for cells of an array. -/
  | reference (array : String) (is : List Index)

/-- A call step by step. What has been stored stays, whether or not a later step fails. -/
def Call.perform : Call → Referring (Option Reference)
  | register array shape => do
    let r ← MonadState.get
    let r' ← r.register array shape
    set r'
    return none
  | reference array is => do
    (is.forM (Index.check array) : Except Fault Unit)
    let r ← MonadState.get
    let r' ← r.reach array is
    set r'
    let r ← MonadState.get
    let a ← r.find array
    let cells ← a.at is
    return some cells

/-- What a call comes to as a whole. -/
def Call.outcome (r : Registry) : Call → Except Fault (Option Reference × Registry)
  | register array shape => (r.register array shape).map fun r => (none, r)
  | reference array is => (r.reference array is).map fun (cells, r) => (some cells, r)

/-- The registry after a sequence of calls, failed ones included. -/
def after (r : Registry) (calls : List Call) : Registry :=
  calls.foldl (fun r c => (c.perform r).2) r

/-- Whether an array that is known in the one registry has another shape in the other. -/
def reshaped (array : String) (r r' : Registry) : Bool :=
  (r.shape? array).any fun s => r'.shape? array != some s

/-- How often the shape of an array changes during a sequence of calls. -/
def shapeChanges (array : String) (r : Registry) : List Call → Nat
  | [] => 0
  | c :: calls =>
    let r' := (c.perform r).2
    (r.reshaped array r').toNat + shapeChanges array r' calls

variable {r r' : Registry} {array : String} {is : List Index} {calls : List Call}

/-- Once a call has stored something it no longer fails: it is what it comes to as a whole, and a
call that fails leaves the registry as it was. -/
theorem perform_eq (hr : r.WellFormed) (c : Call) :
    c.perform r = match c.outcome r with
      | .ok (cells, r') => (.ok cells, r')
      | .error e => (.error e, r) := by
  cases c with
  | register array shape =>
    cases h : r.register array shape <;>
      simp only [Call.perform, Call.outcome, run_bind, run_get, run_lift, h] <;> rfl
  | reference array is =>
    cases hi : is.forM (Index.check array) with
    | error e =>
      simp only [Call.perform, Call.outcome, reference, run_bind, run_lift, hi]
      rfl
    | ok =>
      cases hreach : r.reach array is with
      | error e =>
        simp only [Call.perform, Call.outcome, reference, run_bind, run_get, run_lift, hi, hreach]
        rfl
      | ok r' =>
        obtain ⟨hfits, halloc, rfl⟩ := (reach_eq_ok hr).1 hreach
        obtain ⟨a, ha, hs, hc⟩ := find_grown hr halloc
        have hat : a.at is = .ok (denoted array is a.shape) := by
          refine at_eq_ok (forM_check.1 hi) ?_ (by rw [hc, hs])
          rw [hs]
          exact extent_needed (length_needed hfits)
        have whole := (reference_eq_ok hr).2 ⟨forM_check.1 hi, hfits, halloc, rfl, rfl⟩
        simp only [Call.perform, Call.outcome, run_bind, run_get, run_set, run_lift, hi, hreach, ha,
          hat, hs, whole]
        rfl

/-! ## What a call does to an array -/

/-- What one call can do to what is known of an array: nothing, make it, or make it larger in a new
generation. -/
inductive Next : Option SymbolArray → Option SymbolArray → Prop
  | same (a : Option SymbolArray) : Next a a
  | made {a : SymbolArray} : a.generation = 0 → Next none (some a)
  | larger {a b : SymbolArray} : List.Forall₂ (· ≤ ·) a.shape b.shape → b.shape ≠ a.shape →
      b.generation = a.generation + 1 → Next (some a) (some b)

theorem next_put {a : SymbolArray} (h : Next (r.get? array) (some a)) (name : String) :
    Next (r.get? name) (get? ⟨r.arrays.put array a⟩ name) := by
  simp only [get?, Assoc.get?_put]
  split
  · next heq =>
    rw [heq]
    exact h
  · exact .same _

theorem next_register {shape : List Int} (h : r.register array shape = .ok r') (name : String) :
    Next (r.get? name) (r'.get? name) := by
  unfold Registry.register at h
  split at h
  · cases h
  · next hnew =>
    split at h
    · cases h
    · unfold allocate at h
      split at h
      · cases h
        have fresh : r.get? array = none := Assoc.get?_eq_none (by simpa [contains] using hnew)
        refine next_put ?_ name
        rw [fresh]
        exact .made rfl
      · cases h

theorem next_grown (hfits : r.RankFits array is) (name : String) :
    Next (r.get? name) ((r.grown array is).get? name) := by
  unfold grown
  dsimp only
  split
  · next hnone =>
    refine next_put ?_ name
    rw [hnone]
    exact .made rfl
  · next a ha =>
    split
    · exact .same _
    · next hshape =>
      refine next_put ?_ name
      rw [ha]
      exact .larger (forall₂_needed hfits (by rw [shape?, ha]; rfl)) hshape rfl

theorem next_perform (hr : r.WellFormed) (c : Call) :
    (c.perform r).2.WellFormed ∧ ∀ name, Next (r.get? name) ((c.perform r).2.get? name) := by
  rw [perform_eq hr]
  split
  · next cells r' h =>
    cases c with
    | register array shape =>
      obtain ⟨r'', hr'', heq⟩ := map_eq_ok.1 h
      cases heq
      exact ⟨hr.register hr'', next_register hr''⟩
    | reference array is =>
      obtain ⟨⟨ref, r''⟩, hr'', heq⟩ := map_eq_ok.1 h
      cases heq
      obtain ⟨-, hfits, halloc, rfl, -⟩ := (reference_eq_ok hr).1 hr''
      exact ⟨hr.grown halloc, next_grown hfits⟩
  · exact ⟨hr, fun _ => .same _⟩

/-! ## What a sequence of calls does to an array -/

theorem after_cons (r : Registry) (c : Call) (calls : List Call) :
    r.after (c :: calls) = (c.perform r).2.after calls := rfl

/-- The generation of an array, or zero if it is unknown. -/
def age (r : Registry) (array : String) : Nat := ((r.get? array).map (·.generation)).getD 0

/-- A call starts a new generation of an array if and only if it changes its shape. -/
theorem Next.age {r r' : Registry} (h : Next (r.get? array) (r'.get? array)) :
    r'.age array = r.age array + (r.reshaped array r').toNat := by
  simp only [Registry.age, reshaped, shape?]
  generalize r.get? array = x, r'.get? array = y at h
  cases h with
  | same => cases x <;> simp
  | made h0 => simp [h0]
  | @larger a b _ hne hg =>
    have hchanged : (some b.shape != some a.shape) = true := by simpa using hne
    simp [hg, hchanged]

theorem Next.within {r r' : Registry} (h : ∀ name, Next (r.get? name) (r'.get? name)) :
    r.Within r' := by
  intro name s hs
  have hname := h name
  simp only [shape?] at hs ⊢
  generalize r.get? name = x, r'.get? name = y at hname hs
  cases hname with
  | same a => exact ⟨s, hs, List.forall₂_same.2 fun _ _ => Nat.le_refl _⟩
  | made => cases hs
  | larger hle =>
    cases hs
    exact ⟨_, rfl, hle⟩

theorem Next.eq_of_not_reshaped {r r' : Registry} {a : SymbolArray}
    (h : Next (r.get? array) (r'.get? array)) (ha : r.get? array = some a)
    (hsame : r.reshaped array r' = false) : r'.get? array = some a := by
  simp only [reshaped, shape?] at hsame
  rw [ha] at h hsame
  generalize r'.get? array = y at h hsame
  cases h with
  | same => rfl
  | larger _ hne => simp [hne] at hsame

theorem wellFormed_after (hr : r.WellFormed) : (r.after calls).WellFormed := by
  induction calls generalizing r with
  | nil => exact hr
  | cons c calls ih => exact ih (next_perform hr c).1

theorem within_after (hr : r.WellFormed) : r.Within (r.after calls) := by
  induction calls generalizing r with
  | nil => exact .refl r
  | cons c calls ih =>
    obtain ⟨hr', hnext⟩ := next_perform hr c
    exact (Next.within hnext).trans (ih hr')

/-- The generation of an array counts how often its shape has changed. -/
theorem age_after (hr : r.WellFormed) :
    (r.after calls).age array = r.age array + shapeChanges array r calls := by
  induction calls generalizing r with
  | nil => rfl
  | cons c calls ih =>
    obtain ⟨hr', hnext⟩ := next_perform hr c
    rw [after_cons, ih hr', (hnext array).age, shapeChanges, Nat.add_assoc]

/-- An array whose shape does not change stays as it is. -/
theorem get?_after (hr : r.WellFormed) {a : SymbolArray} (ha : r.get? array = some a)
    (h : shapeChanges array r calls = 0) : (r.after calls).get? array = some a := by
  induction calls generalizing r with
  | nil => exact ha
  | cons c calls ih =>
    obtain ⟨hr', hnext⟩ := next_perform hr c
    simp only [shapeChanges, Nat.add_eq_zero_iff, Bool.toNat_eq_zero] at h
    exact ih hr' ((hnext array).eq_of_not_reshaped ha h.1) h.2

/-- A handle is accepted as long as the shape of its array does not change. -/
theorem get_handle_after (hr : r.WellFormed) {h : Handle} (hh : r.handle array = .ok h)
    (b : SymbolArray) :
    (r.after calls).get h = .ok b ↔ r.get? array = some b ∧ shapeChanges array r calls = 0 := by
  obtain ⟨a, ha, rfl⟩ := map_eq_ok.1 hh
  have hra : r.get? array = some a := by
    simp only [find] at ha
    split at ha
    · next heq => cases ha; exact heq
    · cases ha
  have hage : r.age array = a.generation := by simp [age, hra]
  constructor
  · intro hget
    simp only [Registry.get] at hget
    split at hget
    · cases hget
    · next c hc =>
      split at hget
      · next hgen =>
        cases hget
        have hcount : (r.after calls).age array = b.generation := by simp [age, hc]
        rw [age_after hr, hage] at hcount
        have hzero : shapeChanges array r calls = 0 := by omega
        have hsame := get?_after hr hra hzero
        exact ⟨by rw [hra, ← hsame, hc], hzero⟩
      · cases hget
  · rintro ⟨hb, hzero⟩
    have hsame := get?_after hr hb hzero
    rw [hra] at hb
    cases hb
    simp [Registry.get, hsame]

/-- After an accepted reference its array reaches as far along every axis as the indices do. -/
theorem upper_le_of_perform (hr : r.WellFormed) {answer : Option Reference}
    (h : (Call.reference array is).perform r = (.ok answer, r')) :
    ∃ s, r'.shape? array = some s ∧
      List.Forall₂ (fun i (n : Nat) => ∀ u ∈ i.upper?, u ≤ (n : Int)) is s := by
  rw [perform_eq hr] at h
  split at h
  · next cells r'' houtcome =>
    cases h
    obtain ⟨⟨ref, r''⟩, href, heq⟩ := map_eq_ok.1 houtcome
    cases heq
    obtain ⟨-, hfits, -, rfl, -⟩ := (reference_eq_ok hr).1 href
    refine ⟨_, by rw [shape?_grown, if_pos rfl], ?_⟩
    exact (extent_needed (length_needed hfits)).imp fun _ _ hn => Index.upper_le_of_extent hn
  · cases h

theorem eq_of_perform_eq_error (hr : r.WellFormed) {c : Call} {e : Fault}
    (h : c.perform r = (.error e, r')) : r' = r := by
  rw [perform_eq hr] at h
  split at h
  · cases h
  · cases h
    rfl

/-- The registry that starts empty, after any sequence of calls and then any further ones, failed
ones included. Every array has at each position the cell of its name and of that position. Its
generation is the number of changes of its shape. Later it has as many axes, none of them shorter,
and a handle of it is accepted if and only if its shape has not changed in between. A call is what
`Registry.register` or `Registry.reference` comes to as a whole; an accepted reference makes every
axis reach the positions that the indices name, and a call that fails changes nothing. -/
theorem registry_after_calls (calls later : List Call) (array : String) :
    let r := empty.after calls
    let t := r.after later
    (∀ a, r.get? array = some a →
      a.InPlace array ∧ a.generation = shapeChanges array empty calls ∧
      (∃ b, t.get? array = some b ∧ List.Forall₂ (· ≤ ·) a.shape b.shape)) ∧
    (∀ h, r.handle array = .ok h → ∀ b,
      t.get h = .ok b ↔ r.get? array = some b ∧ shapeChanges array r later = 0) ∧
    (∀ is answer r', (Call.reference array is).perform r = (.ok answer, r') →
      ∃ s, r'.shape? array = some s ∧
        List.Forall₂ (fun i (n : Nat) => ∀ u ∈ i.upper?, u ≤ (n : Int)) is s) ∧
    (∀ c : Call, c.perform r = match c.outcome r with
      | .ok (answer, r') => (.ok answer, r')
      | .error e => (.error e, r)) ∧
    ∀ (c : Call) (e : Fault) r', c.perform r = (.error e, r') → r' = r := by
  intro r t
  have hr : r.WellFormed := wellFormed_after wellFormed_empty
  refine ⟨fun a ha => ⟨inPlace_of_cells (hr.cells ha), ?_, ?_⟩,
    fun h hh b => get_handle_after hr hh b, fun is answer r' h => upper_le_of_perform hr h,
    fun c => perform_eq hr c, fun c e r' h => eq_of_perform_eq_error hr h⟩
  · calc a.generation = r.age array := by simp [age, ha]
      _ = empty.age array + shapeChanges array empty calls := age_after wellFormed_empty
      _ = shapeChanges array empty calls := Nat.zero_add _
  · have hs : r.shape? array = some a.shape := by rw [shape?, ha]; rfl
    obtain ⟨s, hs', hle⟩ : ∃ s, t.shape? array = some s ∧ List.Forall₂ (· ≤ ·) a.shape s :=
      within_after hr hs
    obtain ⟨b, hb, rfl⟩ := Option.map_eq_some_iff.1 hs'
    exact ⟨b, hb, hle⟩

end Registry

end PlateModel
