/-!
# Tables in the order of their entries

A table maps texts to values and remembers in which order its keys were first put. Putting a value
under a key that is already there replaces the value and keeps the place.

* `get?_put`: a table holds under a key what was put there last.
* `keys_put`: putting adds a new key at the end and leaves the keys alone otherwise.
-/

namespace PlateModel

/-- A table with its entries in the order in which their keys were first put. -/
structure Assoc (α : Type) where
  entries : List (String × α)
  deriving Inhabited

namespace Assoc

variable {α β : Type}

def empty : Assoc α := ⟨[]⟩

/-- The value under a key. -/
def get? (t : Assoc α) (k : String) : Option α := t.entries.lookup k

def contains (t : Assoc α) (k : String) : Bool := (t.get? k).isSome

/-- The keys in order. -/
def keys (t : Assoc α) : List String := t.entries.map (·.1)

def values (t : Assoc α) : List α := t.entries.map (·.2)

def size (t : Assoc α) : Nat := t.entries.length

private def putIn (k : String) (v : α) : List (String × α) → List (String × α)
  | [] => [(k, v)]
  | (j, w) :: rest => if k = j then (k, v) :: rest else (j, w) :: putIn k v rest

/-- The table with a value under a key. -/
def put (t : Assoc α) (k : String) (v : α) : Assoc α := ⟨putIn k v t.entries⟩

/-- The table without a key. -/
def erase (t : Assoc α) (k : String) : Assoc α := ⟨t.entries.filter (·.1 ≠ k)⟩

/-- The table with the values replaced. -/
def map (f : α → β) (t : Assoc α) : Assoc β := ⟨t.entries.map fun (k, v) => (k, f v)⟩

/-- The table that holds the given pairs, a later one for the same key winning. -/
def ofList (pairs : List (String × α)) : Assoc α :=
  pairs.foldl (fun t (k, v) => t.put k v) empty

/-- A table holds under a key what was put there last. -/
theorem get?_put (t : Assoc α) (k j : String) (v : α) :
    (t.put k v).get? j = if j = k then some v else t.get? j := by
  obtain ⟨es⟩ := t
  simp only [put, get?]
  induction es with
  | nil => simp only [putIn, List.lookup_nil, List.lookup_cons]; split <;> simp_all
  | cons e rest ih =>
    obtain ⟨i, w⟩ := e
    by_cases hk : k = i
    · subst hk
      by_cases hj : j = k
      · simp [putIn, hj]
      · have hb : (j == k) = false := by simpa using hj
        simp [putIn, List.lookup_cons, hb, hj]
    · by_cases hj : j = i
      · subst hj
        simp [putIn, hk, Ne.symm hk]
      · have hb : (j == i) = false := by simpa using hj
        simp [putIn, List.lookup_cons, hk, hb, ih]

/-- Putting adds a new key at the end and leaves the keys alone otherwise. -/
theorem keys_put (t : Assoc α) (k : String) (v : α) :
    (t.put k v).keys = if k ∈ t.keys then t.keys else t.keys ++ [k] := by
  obtain ⟨es⟩ := t
  simp only [put, keys]
  induction es with
  | nil => simp [putIn]
  | cons e rest ih =>
    obtain ⟨i, w⟩ := e
    by_cases hk : k = i
    · subst hk; simp [putIn]
    · simp only [putIn, hk, if_false, List.map_cons, ih]
      by_cases hm : k ∈ rest.map (·.1) <;> simp [hk, hm]

/-- A new key and its value come last. -/
theorem entries_put_of_not_mem {t : Assoc α} {k : String} (v : α) (hk : k ∉ t.keys) :
    (t.put k v).entries = t.entries ++ [(k, v)] := by
  obtain ⟨es⟩ := t
  simp only [put, keys] at hk ⊢
  induction es with
  | nil => rfl
  | cons e rest ih =>
    obtain ⟨i, w⟩ := e
    simp only [List.map_cons, List.mem_cons, not_or] at hk
    rw [putIn, if_neg hk.1, ih hk.2, List.cons_append]

/-- Putting the value that is there already changes nothing. -/
theorem put_of_get? {t : Assoc α} {k : String} {v : α} (h : t.get? k = some v) : t.put k v = t := by
  obtain ⟨es⟩ := t
  simp only [put, get?, mk.injEq] at h ⊢
  induction es with
  | nil => cases h
  | cons e rest ih =>
    obtain ⟨i, w⟩ := e
    by_cases hk : k = i
    · subst hk
      rw [List.lookup_cons_self, Option.some.injEq] at h
      rw [putIn, if_pos rfl, h]
    · have hb : (k == i) = false := by simpa using hk
      rw [List.lookup_cons, hb] at h
      rw [putIn, if_neg hk, ih h]

/-- A value that is put is replaced like those that are there. -/
theorem map_put (f : α → β) (t : Assoc α) (k : String) (v : α) :
    (t.put k v).map f = (t.map f).put k (f v) := by
  obtain ⟨es⟩ := t
  simp only [put, map, mk.injEq]
  induction es with
  | nil => rfl
  | cons e rest ih =>
    obtain ⟨i, w⟩ := e
    by_cases hk : k = i
    · simp [putIn, hk]
    · simp [putIn, hk, ih]

end Assoc

end PlateModel
