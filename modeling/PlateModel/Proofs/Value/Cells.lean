import PlateModel.Proofs.Computation
import PlateModel.Value.Operators

/-!
# Cells in the place of numbers

The cell of an array carries a number, but follows the arithmetic of arrays. An operator makes
arrays of its operands before it combines them. If one of the operands carries a float, both become
floats, whether they are cells or plain numbers; words become words, are compared as they are, and
are divided as floats.

* `Value.Carries`: a value is a number, or a cell with it.
* `Operand.Bears`: so is an operand.
* `Bears.pair_real`, `Bears.pair_word`, `Bears.pair_comparable`, `Bears.pair_quotient`: what becomes
  of two operands.
-/

namespace PlateModel

/-! ## Kinds of numbers -/

/-- A word is the word that it wraps to. -/
theorem CellKind.wrap_of_fits {k : CellKind} {i : Int} (h : k.fits i) : k.wrap i = i := by
  have h63 : twoPow 63 = 9223372036854775808 := rfl
  have h64 : twoPow 64 = 18446744073709551616 := rfl
  cases k <;> simp only [fits, range?, Bool.and_eq_true, decide_eq_true_eq, h63, h64] at h
  case byte => exact Int.bmod_eq_of_le (by omega) (by omega)
  case word => exact Int.bmod_eq_of_le (by omega) (by omega)
  case unsigned => exact Int.emod_eq_of_lt (by omega) (by omega)
  all_goals cases h

theorem CellKind.ofNumber_of_fits {i : Int} (h : word.fits i) : ofNumber (.int i) = .word := by
  simp only [ofNumber, h, if_true]

/-- The kind of an integer is one of words that hold it, unless it is too large for any. -/
theorem CellKind.fits_ofNumber {i : Int} (h : ofNumber (.int i) ≠ .mixed) :
    (ofNumber (.int i) = .word ∨ ofNumber (.int i) = .unsigned) ∧ (ofNumber (.int i)).fits i := by
  unfold ofNumber at h ⊢
  dsimp only at h ⊢
  split
  · next hword => exact ⟨.inl rfl, hword⟩
  · next hword =>
    rw [if_neg hword] at h
    split
    · next hunsigned => exact ⟨.inr rfl, hunsigned⟩
    · next hunsigned => exact absurd (if_neg hunsigned) h

theorem CellKind.join_real {n : Number} (h : ofNumber n ≠ .mixed) :
    (ofNumber n).join .real = .real ∧ real.join (ofNumber n) = .real := by
  cases n with
  | int i => rcases (fits_ofNumber h).1 with hk | hk <;> rw [hk] <;> exact ⟨rfl, rfl⟩
  | _ => exact ⟨rfl, rfl⟩

namespace Number

variable {n : Number}

theorem eq_real (h : n.integer? = none) : ∃ x, n = .real x := by
  cases n <;> first | exact ⟨_, rfl⟩ | cases h

theorem toFloat_of_toFloat? {x : Float} (h : n.toFloat? = some x) : n.toFloat = x := by
  cases n with
  | int i =>
    simp only [toFloat?] at h
    split at h <;> cases h
    rfl
  | real y => cases h; rfl
  | truth b => cases h; rfl

/-- Whether a number is an integer or a truth value that is a signed word. -/
def isWord (n : Number) : Bool := n.integer?.any CellKind.word.fits

theorem isWord_iff : n.isWord ↔ ∃ i, n.integer? = some i ∧ CellKind.word.fits i := by
  cases h : n.integer? <;> simp [isWord, h]

theorem ofNumber_of_isWord (h : n.isWord) :
    CellKind.ofNumber n = .word ∨ ∃ b, n = .truth b := by
  cases n with
  | int i => exact .inl (CellKind.ofNumber_of_fits h)
  | real x => cases h
  | truth b => exact .inr ⟨b, rfl⟩

end Number

namespace Value

/-! ## Values that carry a number -/

/-- A value is a number, or the cell with it in an array of the number's own kind. -/
inductive Carries : Value → Number → Prop
  | number (n : Number) : Carries (number n) n
  | cell {n : Number} (h : CellKind.ofNumber n ≠ .mixed) :
    Carries (cell (.ofNumber n) (number n)) n

variable {a : Value} {n : Number}

theorem toKind_ofNumber (h : CellKind.ofNumber n ≠ .mixed) :
    (number n).toKind (.ofNumber n) = number n := by
  cases n with
  | int i =>
    obtain ⟨hk, hfits⟩ := CellKind.fits_ofNumber h
    have hwrap := congrArg int (CellKind.wrap_of_fits hfits)
    rcases hk with hk | hk <;> rw [hk] at hwrap ⊢ <;> exact hwrap
  | _ => rfl

theorem Carries.isTensor (h : a.Carries n) : a.isTensor = false := by cases h <;> rfl

theorem Carries.isTrue (h : a.Carries n) : a.isTrue = .ok n.isTrue := by cases h <;> rfl

/-- As an array, a cell is the array of its number. -/
theorem Carries.tensor? (h : a.Carries n) : a.tensor? = (Value.number n).tensor? := by
  cases h <;> rfl

theorem Carries.floats? (h : a.Carries n) : a.floats? = (Value.number n).floats? := by
  cases h with
  | number => rfl
  | cell h =>
    have hk : CellKind.ofNumber n ≠ .complex := by
      cases n with
      | int i => rcases (CellKind.fits_ofNumber h).1 with hk | hk <;> rw [hk] <;> nofun
      | _ => nofun
    show (cellFloat? _ _).map _ = _
    rw [cellFloat?, if_neg hk]
    rfl

end Value

open Value

/-! ## Operands -/

namespace Tensor

variable {n : Number}

theorem toKind_real {x : Float} (h : n.toFloat? = some x) :
    (single (.ofNumber n) (number n)).toKind .real = .float x := by
  obtain rfl := Number.toFloat_of_toFloat? h
  cases n with
  | int i =>
    have hk : CellKind.ofNumber (.int i) ≠ .real := by
      simp only [CellKind.ofNumber]
      (repeat' split) <;> nofun
    show (if CellKind.ofNumber (.int i) = CellKind.real then _ else _) = _
    rw [if_neg hk]
    rfl
  | _ => rfl

theorem toKind_word (h : n.isWord) {i : Int} (hi : n.integer? = some i) :
    (single (.ofNumber n) (number n)).toKind .word = single .word (int i) := by
  cases n with
  | int j =>
    cases hi
    rw [CellKind.ofNumber_of_fits h]
    rfl
  | real x => cases h
  | truth b => cases b <;> cases hi <;> rfl

end Tensor

namespace Operand

/-- An operand with a number. -/
inductive Bears : Operand → Number → Prop
  | constant {n : Number} (h : ∀ b, n ≠ .truth b) : Bears (constant (number n)) n
  | array {n : Number} (h : CellKind.ofNumber n ≠ .mixed) :
    Bears (array (.single (.ofNumber n) (number n))) n

theorem bears_of_carries {a : Value} {n : Number} (h : a.Carries n) :
    ∃ A, ofValue a = .ok A ∧ A.Bears n := by
  cases h with
  | number n =>
    cases n with
    | int i => exact ⟨_, rfl, .constant nofun⟩
    | real x => exact ⟨_, rfl, .constant nofun⟩
    | truth b => exact ⟨_, rfl, .array (n := .truth b) nofun⟩
  | cell h =>
    refine ⟨_, ?_, .array h⟩
    show Except.ok (Operand.array (.single (.ofNumber n) (toKind (.ofNumber n) (number n)))) = _
    rw [toKind_ofNumber h]

theorem convert_real {n : Number} {x : Float} (h : n.toFloat? = some x) :
    convert .real (number n) = .ok (.float x) := by
  obtain rfl := Number.toFloat_of_toFloat? h
  cases n with
  | int i =>
    simp only [Number.toFloat?] at h
    split at h
    · cases h
    · next hinf =>
      simp [convert, CellKind.fits, CellKind.isWords, CellKind.range?, hinf]
      rfl
  | _ => rfl

theorem convert_word {i : Int} (h : CellKind.word.fits i) :
    convert .word (int i) = .ok (.single .word (int i)) := by
  simp only [convert, int, h, Bool.or_true, if_true]

/-! ### Floats -/

/-- A plain number is lifted to a float beside floats, and a plain float beside words as well. -/
structure LiftsFloats (lift : CellKind → Value → Except Failure (Tensor Value)) : Prop where
  real : ∀ {n x}, n.toFloat? = some x → (∀ b, n ≠ .truth b) → lift .real (number n) = .ok (.float x)
  word : ∀ {k : CellKind} {x}, k = .truth ∨ k.isWords → lift k (number (.real x)) = .ok (.float x)

theorem liftsFloats_beside : LiftsFloats beside where
  real {n x} h hn := by
    rw [← convert_real h]
    cases n with
    | truth b => exact absurd rfl (hn b)
    | _ => rfl
  word {k x} h := by
    rcases h with rfl | h
    · rfl
    · cases k <;> first | rfl | cases h

theorem liftsFloats_quotientTerm : LiftsFloats quotientTerm where
  real h hn := (liftsFloats_beside.real h hn : _)
  word {k x} h := by
    rcases h with rfl | h
    · rfl
    · cases k <;> first | rfl | cases h

theorem liftsFloats_comparable : LiftsFloats comparable where
  real h hn := (liftsFloats_beside.real h hn : _)
  word {k x} h := by
    rcases h with rfl | h
    · rfl
    · cases k <;> first | rfl | cases h

section Floats

variable {lift : CellKind → Value → Except Failure (Tensor Value)} {m n : Number} {x y : Float}

theorem LiftsFloats.beside (hlift : LiftsFloats lift) (hm : ∀ b, m ≠ .truth b)
    (hn : CellKind.ofNumber n ≠ .mixed) (h : m.integer? = none ∨ n.integer? = none)
    (hx : m.toFloat? = some x) : lift (.ofNumber n) (number m) = .ok (.float x) := by
  cases n with
  | real y => exact hlift.real hx hm
  | truth b =>
    cases m with
    | real x => cases hx; exact hlift.word (.inl rfl)
    | _ => simp [Number.integer?] at h
  | int i =>
    cases m with
    | real x =>
      cases hx
      refine hlift.word (.inr ?_)
      rcases (CellKind.fits_ofNumber hn).1 with hk | hk <;> rw [hk] <;> rfl
    | _ => simp [Number.integer?] at h

/-- Two operands of which one is a float become floats. -/
theorem Bears.pair_real (hlift : LiftsFloats lift) {A B : Operand} (ha : A.Bears m)
    (hb : B.Bears n) (h : m.integer? = none ∨ n.integer? = none) (hx : m.toFloat? = some x)
    (hy : n.toFloat? = some y) :
    ∃ s t, pair lift A B = .ok (s, t) ∧ s.toKind .real = .float x ∧ t.toKind .real = .float y ∧
      s.kind.join t.kind = .real ∧ (s.kind = .real ∨ t.kind = .real) := by
  cases ha with
  | constant hm =>
    cases hb with
    | constant hn =>
      have hkind : (ownKind (number m)).join (ownKind (number n)) = .real := by
        cases m <;> cases n <;> first | rfl | simp [Number.integer?] at h
      refine ⟨.float x, .float y, ?_, rfl, rfl, rfl, .inl rfl⟩
      simp only [pair, hkind, convert_real hx, convert_real hy]
      rfl
    | array hn =>
      refine ⟨.float x, .single (.ofNumber n) (number n), ?_, rfl, Tensor.toKind_real hy,
        (CellKind.join_real hn).2, .inl rfl⟩
      simp only [pair, Tensor.single, hlift.beside hm hn h hx, Except.map]
  | array hm =>
    cases hb with
    | constant hn =>
      refine ⟨.single (.ofNumber m) (number m), .float y, ?_, Tensor.toKind_real hx, rfl,
        (CellKind.join_real hm).1, .inr rfl⟩
      simp only [pair, Tensor.single, hlift.beside hn hm h.symm hy, Except.map]
    | array hn =>
      refine ⟨_, _, rfl, Tensor.toKind_real hx, Tensor.toKind_real hy, ?_⟩
      rcases h with h | h <;> obtain ⟨z, rfl⟩ := Number.eq_real h
      · exact ⟨(CellKind.join_real hn).2, .inl rfl⟩
      · exact ⟨(CellKind.join_real hm).1, .inr rfl⟩

end Floats

/-! ### Words -/

section Words

variable {m n : Number} {i j : Int}

theorem beside_word {k : CellKind} (hk : k = .word ∨ k = .truth) (hi : CellKind.word.fits i) :
    beside k (int i) = .ok (.single .word (int i)) := by
  rcases hk with rfl | rfl <;> exact convert_word hi

theorem kind_of_isWord (h : n.isWord) :
    CellKind.ofNumber n = .word ∨ CellKind.ofNumber n = .truth :=
  (Number.ofNumber_of_isWord h).imp_right fun ⟨_, hb⟩ => hb ▸ rfl

theorem Bears.cases_of_isWord {A : Operand} (ha : A.Bears n) (h : n.isWord) :
    (∃ i, n = .int i ∧ CellKind.word.fits i ∧ A = .constant (int i)) ∨
      A = .array (.single (.ofNumber n) (number n)) := by
  cases ha with
  | array => exact .inr rfl
  | constant hn =>
    cases n with
    | int i => exact .inl ⟨i, rfl, h, rfl⟩
    | real x => cases h
    | truth b => exact absurd rfl (hn b)

/-- Two words that are not both truth values become words. -/
theorem Bears.pair_word {A B : Operand} (ha : A.Bears m) (hb : B.Bears n) (hm : m.isWord)
    (hn : n.isWord) (htruth : CellKind.ofNumber m = .word ∨ CellKind.ofNumber n = .word)
    (hi : m.integer? = some i) (hj : n.integer? = some j) :
    ∃ s t, pair beside A B = .ok (s, t) ∧ s.kind.join t.kind = .word ∧
      s.toKind .word = .single .word (int i) ∧ t.toKind .word = .single .word (int j) := by
  rcases ha.cases_of_isWord hm with ⟨i, rfl, hfits, rfl⟩ | rfl <;>
    rcases hb.cases_of_isWord hn with ⟨j, rfl, hfits', rfl⟩ | rfl
  · cases hi
    cases hj
    refine ⟨.single .word (int i), .single .word (int j), ?_, rfl, rfl, rfl⟩
    show (do return (← convert .word (int i), ← convert .word (int j))) = _
    rw [convert_word hfits, convert_word hfits']
    rfl
  · cases hi
    refine ⟨.single .word (int i), .single (.ofNumber n) (number n), ?_, ?_, rfl,
      Tensor.toKind_word hn hj⟩
    · show (beside (.ofNumber n) (int i)).map _ = _
      rw [beside_word (kind_of_isWord hn) hfits]
      rfl
    · show CellKind.word.join (.ofNumber n) = _
      rcases kind_of_isWord hn with hk | hk <;> rw [hk] <;> rfl
  · cases hj
    refine ⟨.single (.ofNumber m) (number m), .single .word (int j), ?_, ?_,
      Tensor.toKind_word hm hi, rfl⟩
    · show (beside (.ofNumber m) (int j)).map _ = _
      rw [beside_word (kind_of_isWord hm) hfits']
      rfl
    · show (CellKind.ofNumber m).join .word = _
      rcases kind_of_isWord hm with hk | hk <;> rw [hk] <;> rfl
  · refine ⟨_, _, rfl, ?_, Tensor.toKind_word hm hi, Tensor.toKind_word hn hj⟩
    show (CellKind.ofNumber m).join (.ofNumber n) = _
    rcases htruth with hk | hk <;> rw [hk]
    · rcases kind_of_isWord hn with hk | hk <;> rw [hk] <;> rfl
    · rcases kind_of_isWord hm with hk | hk <;> rw [hk] <;> rfl

/-- The kinds of cells that are compared exactly with words. -/
def comparesExactly (k : CellKind) : Bool := k = .word || k = .truth || k = .mixed

theorem comparable_word {k : CellKind} (hk : k = .word ∨ k = .truth) (hi : CellKind.word.fits i) :
    ∃ j, comparable k (int i) = .ok (.single j (int i)) ∧ comparesExactly j := by
  rcases hk with rfl | rfl
  · exact ⟨.mixed, rfl, rfl⟩
  · exact ⟨.word, convert_word hi, rfl⟩

/-- Two words are compared as they are. -/
theorem Bears.pair_comparable {A B : Operand} (ha : A.Bears m) (hb : B.Bears n) (hm : m.isWord)
    (hn : n.isWord) : ∃ j k, pair comparable A B =
      .ok (.single j (number m), .single k (number n)) ∧ comparesExactly j ∧ comparesExactly k := by
  have exact_of_isWord {n : Number} (hn : n.isWord) : comparesExactly (.ofNumber n) := by
    rcases kind_of_isWord hn with hk | hk <;> rw [hk] <;> rfl
  rcases ha.cases_of_isWord hm with ⟨i, rfl, hfits, rfl⟩ | rfl <;>
    rcases hb.cases_of_isWord hn with ⟨j, rfl, hfits', rfl⟩ | rfl
  · refine ⟨.word, .word, ?_, rfl, rfl⟩
    show (do return (← convert .word (int i), ← convert .word (int j))) = _
    rw [convert_word hfits, convert_word hfits']
    rfl
  · obtain ⟨k, hk, hexact⟩ := comparable_word (kind_of_isWord hn) hfits
    refine ⟨k, .ofNumber n, ?_, hexact, exact_of_isWord hn⟩
    show (comparable (.ofNumber n) (int i)).map _ = _
    rw [hk]
    rfl
  · obtain ⟨k, hk, hexact⟩ := comparable_word (kind_of_isWord hm) hfits'
    refine ⟨.ofNumber m, k, ?_, exact_of_isWord hm, hexact⟩
    show (comparable (.ofNumber m) (int j)).map _ = _
    rw [hk]
    rfl
  · exact ⟨_, _, rfl, exact_of_isWord hm, exact_of_isWord hn⟩

/-- The kinds of cells that are divided as floats. -/
def dividesAsFloats (k : CellKind) : Bool := k = .word || k = .truth || k = .real

theorem computingKind_div {j k : CellKind} (hj : dividesAsFloats j) (hk : dividesAsFloats k) :
    j.join k ≠ .text ∧ BinaryOp.div.computingKind (j.join k) = .ok .real := by
  cases j <;> cases hj <;> cases k <;> cases hk <;> exact ⟨nofun, rfl⟩

/-- Two words are divided as floats. -/
theorem Bears.pair_quotient {A B : Operand} (ha : A.Bears m) (hb : B.Bears n) (hm : m.isWord)
    (hn : n.isWord) {x y : Float} (hx : m.toFloat? = some x) (hy : n.toFloat? = some y) :
    ∃ s t, pair quotientTerm A B = .ok (s, t) ∧ s.toKind .real = .float x ∧
      t.toKind .real = .float y ∧ dividesAsFloats s.kind ∧ dividesAsFloats t.kind := by
  have divides_of_isWord {n : Number} (hn : n.isWord) : dividesAsFloats (.ofNumber n) := by
    rcases kind_of_isWord hn with hk | hk <;> rw [hk] <;> rfl
  have hfloat {n : Number} {i : Int} {x : Float} (hn : n.isWord)
      (h : (Number.int i).toFloat? = some x) : quotientTerm (.ofNumber n) (int i) =
        .ok (.float x) := by
    rw [← convert_real h]
    rcases kind_of_isWord hn with hk | hk <;> rw [hk] <;> rfl
  rcases ha.cases_of_isWord hm with ⟨i, rfl, hfits, rfl⟩ | rfl <;>
    rcases hb.cases_of_isWord hn with ⟨j, rfl, hfits', rfl⟩ | rfl
  · refine ⟨.single .word (int i), .single .word (int j), ?_, ?_, ?_, rfl, rfl⟩
    · show (do return (← convert .word (int i), ← convert .word (int j))) = _
      rw [convert_word hfits, convert_word hfits']
      rfl
    · rw [← Number.toFloat_of_toFloat? hx]
      rfl
    · rw [← Number.toFloat_of_toFloat? hy]
      rfl
  · refine ⟨.float x, _, ?_, rfl, Tensor.toKind_real hy, rfl, divides_of_isWord hn⟩
    show (quotientTerm (.ofNumber n) (int i)).map _ = _
    rw [hfloat hn hx]
    rfl
  · refine ⟨_, .float y, ?_, Tensor.toKind_real hx, rfl, divides_of_isWord hm, rfl⟩
    show (quotientTerm (.ofNumber m) (int j)).map _ = _
    rw [hfloat hm hy]
    rfl
  · exact ⟨_, _, rfl, Tensor.toKind_real hx, Tensor.toKind_real hy, divides_of_isWord hm,
      divides_of_isWord hn⟩

end Words

end Operand

end PlateModel
