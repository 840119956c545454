import Mathlib.Algebra.Ring.Int.Parity
import Mathlib.Data.Int.ModEq
import PlateModel.Proofs.Value.Cells

/-!
# Operators that are the same for cells

A cell of words wraps, sums of truth values are truth values, and words are divided and compared
with floats as floats. So an operator need not make of cells what it makes of the numbers in them.
It does on numbers for which none of this matters, and then its result carries the same number.

* `BinaryOp.Uniform`, `UnaryOp.Uniform`: the numbers on which an operator is the same for cells.
* `BinaryOp.apply_uniform`, `UnaryOp.apply_uniform`: its results carry the same number.
* `CellKind.wordPow_of_fits`: the power of words is the power, if that is a word.
-/

namespace PlateModel

open Value

/-! ## Powers of words -/

namespace CellKind

/-- Squaring and multiplying gives the power, up to multiples of `2 ^ 64`. -/
theorem wordPow_go (base acc n : Nat) :
    wordPow.go base acc n ≡ acc * base ^ n [MOD twoPow 64] := by
  induction n using Nat.strong_induction_on generalizing base acc with
  | _ n ih =>
    rw [wordPow.go]
    split
    · next h => rw [h, pow_zero, mul_one]
    · next h =>
      refine (ih (n / 2) (by omega) _ _).trans ?_
      have hsquare : (base * base % twoPow 64) ^ (n / 2) ≡ (base * base) ^ (n / 2)
          [MOD twoPow 64] := (Nat.mod_modEq _ _).pow _
      split
      · next hodd =>
        have hn : base * (base * base) ^ (n / 2) = base ^ n := by
          rw [← pow_two, ← pow_mul, ← pow_succ']
          congr 1
          omega
        rw [← hn, ← mul_assoc]
        exact (Nat.mod_modEq _ _).mul hsquare
      · next heven =>
        have hn : (base * base) ^ (n / 2) = base ^ n := by
          rw [← pow_two, ← pow_mul]
          congr 1
          omega
        rw [← hn]
        exact (Nat.ModEq.refl acc).mul hsquare

theorem wordPow_of_fits {i : Int} {n : Nat} (h : word.fits (i ^ n)) : word.wordPow i n = i ^ n := by
  have hmod : ((i % twoPow 64).toNat : Int) = i % twoPow 64 :=
    Int.toNat_of_nonneg (Int.emod_nonneg i (by decide))
  have hgo : ((wordPow.go (i % twoPow 64).toNat 1 n : Nat) : Int) ≡ i ^ n [ZMOD twoPow 64] := by
    have hpow := Int.natCast_modEq_iff.2 (wordPow_go (i % twoPow 64).toNat 1 n)
    rw [one_mul, Nat.cast_pow, hmod] at hpow
    exact hpow.trans ((Int.mod_modEq i _).pow n)
  have hwrap (j : Int) : word.wrap j = Int.bmod j (twoPow 64) := rfl
  rw [← wrap_of_fits h, wordPow, hwrap, hwrap, ← Int.emod_bmod, hgo, Int.emod_bmod]

theorem intPower_eq (i : Int) (n : Nat) : Number.intPower i n = i ^ n := by
  unfold Number.intPower
  split
  · next h =>
    subst h
    split
    · next h => rw [h, pow_zero]
    · next h => rw [zero_pow h]
  · split
    · next h => rw [h, one_pow]
    · split
      · next h =>
        subst h
        split
        · next h => rw [Even.neg_one_pow (Nat.even_iff.2 h)]
        · next h => rw [Odd.neg_one_pow (Nat.odd_iff.2 (by omega))]
      · rfl

end CellKind

/-! ## Arithmetic -/

/-- The arithmetic operators. -/
def BinaryOp.isArithmetic : BinaryOp → Bool
  | .add | .sub | .mul | .div | .pow => true
  | _ => false

variable {op : BinaryOp} {a b : Value} {m n r : Number}

theorem BinaryOp.onNumbers_isArithmetic {r : Number ⊕ Complex} (h : op.onNumbers m n = .ok r) :
    op.isArithmetic := by
  cases op <;> first | rfl | cases h

/-- Arithmetic with a float is that of floats. -/
theorem BinaryOp.onNumbers_real (h : m.integer? = none ∨ n.integer? = none)
    (hr : op.onNumbers m n = .ok (.inl r)) :
    ∃ x y, m.toFloat? = some x ∧ n.toFloat? = some y ∧ r = .real (op.onFloats x y) := by
  have harith {f g} (hr : (Number.arith f g m n).map Sum.inl = .ok (.inl r : Number ⊕ Complex)) :
      ∃ x y, m.toFloat? = some x ∧ n.toFloat? = some y ∧ r = .real (g x y) := by
    obtain ⟨s, hs, hsr⟩ := map_eq_ok.1 hr
    cases hsr
    simp only [Number.arith] at hs
    split at hs
    · next hi hj => simp [hi, hj] at h
    · split at hs
      · next x y hx hy => cases hs; exact ⟨x, y, hx, hy, rfl⟩
      · cases hs
  cases op with
  | add | sub | mul => exact harith hr
  | div =>
    obtain ⟨s, hs, hsr⟩ := map_eq_ok.1 hr
    cases hsr
    simp only [Number.div] at hs
    split at hs
    · next hi hj => simp [hi, hj] at h
    · split at hs
      · next x y hx hy =>
        split at hs <;> cases hs
        exact ⟨x, y, hx, hy, rfl⟩
      · cases hs
  | pow =>
    simp only [onNumbers, Number.pow] at hr
    split at hr
    · next hi hj => simp [hi, hj] at h
    · split at hr
      · next x y hx hy =>
        refine ⟨x, y, hx, hy, ?_⟩
        simp only [Number.powFloat] at hr
        split at hr
        · cases hr
        · split at hr
          · obtain ⟨z, -, hz⟩ := map_eq_ok.1 hr
            cases hz
          · split at hr <;> cases hr
            rfl
      · cases hr
  | _ => cases hr

/-- Words are combined exactly if the result is a word. -/
theorem BinaryOp.onWords_of_onNumbers {i j k : Int} (hi : m.integer? = some i)
    (hj : n.integer? = some j) (hk : op.onNumbers m n = .ok (.inl (.int k)))
    (hfits : CellKind.word.fits k) : op ≠ .div ∧ op.onWords .word i j = .ok k := by
  have harith {f g} (h : (Number.arith f g m n).map Sum.inl =
      .ok (.inl (.int k) : Number ⊕ Complex)) : f i j = k := by
    obtain ⟨s, hs, hsk⟩ := map_eq_ok.1 h
    cases hsk
    simp only [Number.arith, hi, hj] at hs
    cases hs
    rfl
  cases op with
  | add | sub | mul =>
    obtain rfl := harith hk
    exact ⟨nofun, congrArg Except.ok (CellKind.wrap_of_fits hfits)⟩
  | div =>
    obtain ⟨s, hs, hsk⟩ := map_eq_ok.1 hk
    cases hsk
    simp only [Number.div, hi, hj, Number.divideInt] at hs
    split at hs
    · cases hs
    · split at hs <;> cases hs
  | pow =>
    refine ⟨nofun, ?_⟩
    simp only [onNumbers, Number.pow, hi, hj] at hk
    split at hk
    · next i' p hi' hj' =>
      cases hi'
      cases hj'
      cases hk
      rw [CellKind.intPower_eq] at hfits ⊢
      simp only [onWords]
      rw [if_neg (show ¬ Int.ofNat p < 0 from Int.not_lt.2 (Int.natCast_nonneg p))]
      exact congrArg Except.ok (CellKind.wordPow_of_fits hfits)
    · split at hk
      · simp only [Number.powFloat] at hk
        split at hk
        · cases hk
        · split at hk
          · obtain ⟨z, -, hz⟩ := map_eq_ok.1 hk
            cases hz
          · split at hk <;> cases hk
      · cases hk
  | _ => cases hk

namespace Tensor

variable {s t : Tensor Value}

/-- Arrays without axes are combined as their cells are. -/
theorem zipWith_single (k j j' : CellKind) (f : Value → Value → Except Failure Value)
    (u v : Value) : zipWith k f (single j u) (single j' v) = (f u v).map (single k) := by
  show ((List.mapM (fun p => f p.1 p.2) [(u, v)]).map fun cells => (⟨k, [], cells⟩ : Tensor _)) = _
  rw [List.mapM_cons, List.mapM_nil]
  dsimp only
  cases f u v <;> rfl

theorem arith_real (hkind : s.kind.join t.kind ≠ .text)
    (hk : op.computingKind (s.kind.join t.kind) = .ok .real) {x y : Float}
    (hs : s.toKind .real = .float x) (ht : t.toKind .real = .float y) :
    s.arith op t = .ok (.float (op.onFloats x y)) := by
  simp only [arith, isTextBesideOther, hkind, hk, hs, ht, decide_false, Bool.false_and,
    Bool.false_eq_true, if_false]
  rfl

theorem arith_word (hop : op ≠ .div) (hkind : s.kind.join t.kind = .word) {i j k : Int}
    (hi : CellKind.word.fits i) (hj : CellKind.word.fits j)
    (hs : s.toKind .word = .single .word (int i)) (ht : t.toKind .word = .single .word (int j))
    (hk : op.onWords .word i j = .ok k) : s.arith op t = .ok (.single .word (int k)) := by
  have hcomputing : op.computingKind .word = .ok .word := by
    cases op <;> first | rfl | exact absurd rfl hop
  have hcell : op.onCells .word (int i) (int j) = .ok (int k) := by
    show (op.onWords .word (CellKind.word.wrap i) (CellKind.word.wrap j)).map int = _
    rw [CellKind.wrap_of_fits hi, CellKind.wrap_of_fits hj, hk]
    rfl
  simp only [arith, isTextBesideOther, hkind, hcomputing, hs, ht, zipWith_single, hcell]
  rfl

/-- Two single cells are compared as cells of the kind in which the arrays are compared. -/
theorem comparison_single {k : CellKind} {u v : Value} {c : Bool}
    (hkind : s.kind.join t.kind ≠ .text) (hk : comparingKind s.kind t.kind = k)
    (hs : s.toKind k = single k u) (ht : t.toKind k = single k v)
    (hc : op.compareCells k u v = .ok c) :
    s.comparison op t = .ok (single .truth (truth c)) := by
  simp only [comparison, isTextBesideOther, hkind, hk, hs, ht, zipWith_single, hc, decide_false,
    Bool.false_and, Bool.false_eq_true, if_false]
  rfl

theorem toKind_mixed (k : CellKind) (v : Value) :
    (single k v).toKind .mixed = single .mixed v := by
  unfold toKind
  split
  · next h =>
    obtain rfl : k = .mixed := h
    rfl
  · rfl

end Tensor

namespace Operand

/-- Numbers of which one is a float are combined as floats, whatever carries them. -/
theorem arith_real (op : BinaryOp) (ha : a.Carries m) (hb : b.Carries n)
    (h : m.integer? = none ∨ n.integer? = none) {x y : Float} (hx : m.toFloat? = some x)
    (hy : n.toFloat? = some y) : ∃ A B, ofValue a = .ok A ∧ ofValue b = .ok B ∧
      Operand.arith op A B = .ok (.float (op.onFloats x y)) := by
  obtain ⟨A, hA, hm⟩ := bears_of_carries ha
  obtain ⟨B, hB, hn⟩ := bears_of_carries hb
  have hlift : LiftsFloats (if op = .div then quotientTerm else beside) := by
    split
    · exact liftsFloats_quotientTerm
    · exact liftsFloats_beside
  obtain ⟨s, t, hpair, hs, ht, hkind, -⟩ := hm.pair_real hlift hn h hx hy
  have hcomputing : op.computingKind .real = .ok .real := by cases op <;> rfl
  refine ⟨A, B, hA, hB, ?_⟩
  simp only [arith, hpair, bind, Except.bind]
  exact Tensor.arith_real (hkind ▸ nofun) (hkind ▸ hcomputing) hs ht

/-- Words whose result is a word are combined as words. -/
theorem arith_word (ha : a.Carries m) (hb : b.Carries n) (hm : m.isWord) (hn : n.isWord)
    (htruth : CellKind.ofNumber m = .word ∨ CellKind.ofNumber n = .word) {k : Int}
    (hk : op.onNumbers m n = .ok (.inl (.int k))) (hfits : CellKind.word.fits k) :
    ∃ A B, ofValue a = .ok A ∧ ofValue b = .ok B ∧
      Operand.arith op A B = .ok (.single .word (int k)) := by
  obtain ⟨i, hi, hfits₁⟩ := Number.isWord_iff.1 hm
  obtain ⟨j, hj, hfits₂⟩ := Number.isWord_iff.1 hn
  obtain ⟨A, hA, hm'⟩ := bears_of_carries ha
  obtain ⟨B, hB, hn'⟩ := bears_of_carries hb
  obtain ⟨s, t, hpair, hkind, hs, ht⟩ := hm'.pair_word hn' hm hn htruth hi hj
  obtain ⟨hop, hwords⟩ := BinaryOp.onWords_of_onNumbers hi hj hk hfits
  refine ⟨A, B, hA, hB, ?_⟩
  simp only [arith, if_neg hop, hpair, bind, Except.bind]
  exact Tensor.arith_word hop hkind hfits₁ hfits₂ hs ht hwords

/-- Words are divided as floats. -/
theorem arith_quotient (ha : a.Carries m) (hb : b.Carries n) (hm : m.isWord) (hn : n.isWord)
    {x y : Float} (hx : m.toFloat? = some x) (hy : n.toFloat? = some y) :
    ∃ A B, ofValue a = .ok A ∧ ofValue b = .ok B ∧
      Operand.arith .div A B = .ok (.float (x / y)) := by
  obtain ⟨A, hA, hm'⟩ := bears_of_carries ha
  obtain ⟨B, hB, hn'⟩ := bears_of_carries hb
  obtain ⟨s, t, hpair, hs, ht, hj, hk⟩ := hm'.pair_quotient hn' hm hn hx hy
  obtain ⟨htext, hcomputing⟩ := computingKind_div hj hk
  refine ⟨A, B, hA, hB, ?_⟩
  simp only [arith, if_true, hpair, bind, Except.bind]
  exact Tensor.arith_real htext hcomputing hs ht

/-- Words are compared exactly. -/
theorem comparison_word (op : BinaryOp) (ha : a.Carries m) (hb : b.Carries n) (hm : m.isWord)
    (hn : n.isWord) : ∃ A B, ofValue a = .ok A ∧ ofValue b = .ok B ∧
      Operand.comparison op A B = .ok (.single .truth (truth (op.holds (m.compare n)))) := by
  obtain ⟨A, hA, hm'⟩ := bears_of_carries ha
  obtain ⟨B, hB, hn'⟩ := bears_of_carries hb
  obtain ⟨j, k, hpair, hj, hk⟩ := hm'.pair_comparable hn' hm hn
  have hkinds : Tensor.comparingKind j k = .mixed ∧ j.join k ≠ .text := by
    cases j <;> cases hj <;> cases k <;> cases hk <;> exact ⟨rfl, nofun⟩
  refine ⟨A, B, hA, hB, ?_⟩
  simp only [comparison, hpair, bind, Except.bind]
  refine Tensor.comparison_single hkinds.2 hkinds.1 (Tensor.toKind_mixed j _)
    (Tensor.toKind_mixed k _) ?_
  show op.comparePlain (number m) (number n) = _
  rw [BinaryOp.comparePlain]

/-- A float and another number are compared as floats. -/
theorem comparison_real (op : BinaryOp) (ha : a.Carries m) (hb : b.Carries n)
    (h : m.integer? = none ∨ n.integer? = none) {x y : Float} (hx : m.toFloat? = some x)
    (hy : n.toFloat? = some y) : ∃ A B, ofValue a = .ok A ∧ ofValue b = .ok B ∧
      Operand.comparison op A B =
        .ok (.single .truth (truth (op.holds (Binary64.compareFloat x y)))) := by
  obtain ⟨A, hA, hm⟩ := bears_of_carries ha
  obtain ⟨B, hB, hn⟩ := bears_of_carries hb
  obtain ⟨s, t, hpair, hs, ht, hkind, hreal⟩ := hm.pair_real liftsFloats_comparable hn h hx hy
  have hcomparing : Tensor.comparingKind s.kind t.kind = .real := by
    rcases hreal with hk | hk
    · rw [hk] at hkind ⊢
      exact hkind
    · rw [hk] at hkind ⊢
      simp only [Tensor.comparingKind, hkind]
      split
      · rfl
      · rfl
  refine ⟨A, B, hA, hB, ?_⟩
  simp only [comparison, hpair, bind, Except.bind]
  exact Tensor.comparison_single (hkind ▸ nofun) hcomparing hs ht rfl

end Operand

/-! ## Operators that are the same for cells -/

/-- Numbers on which a binary operator makes the same of cells as of plain numbers. -/
inductive BinaryOp.Uniform : BinaryOp → Number → Number → Prop
  /-- Arithmetic with a float is that of floats. -/
  | floats {op : BinaryOp} {m n : Number} (h : m.integer? = none ∨ n.integer? = none)
    (hop : op.isArithmetic) : Uniform op m n
  /-- Arithmetic of words is exact if the result is a word. -/
  | words {op : BinaryOp} {m n : Number} {k : Int} (hm : m.isWord) (hn : n.isWord)
    (htruth : CellKind.ofNumber m = .word ∨ CellKind.ofNumber n = .word)
    (hk : op.onNumbers m n = .ok (.inl (.int k))) (hfits : CellKind.word.fits k) : Uniform op m n
  /-- Words are divided as floats; this need not be the float nearest to the quotient. -/
  | quotient {m n : Number} {x y : Float} (hm : m.isWord) (hn : n.isWord)
    (hx : m.toFloat? = some x) (hy : n.toFloat? = some y) (h : m.div n = .ok (.real (x / y))) :
    Uniform .div m n
  /-- Words are compared exactly. -/
  | order {op : BinaryOp} {m n : Number} (hop : op.isComparison) (hm : m.isWord) (hn : n.isWord) :
    Uniform op m n
  /-- Beside a float a number is compared as a float; this need not be its exact value. -/
  | floatOrder {op : BinaryOp} {m n : Number} {x y : Float} (hop : op.isComparison)
    (h : m.integer? = none ∨ n.integer? = none) (hx : m.toFloat? = some x)
    (hy : n.toFloat? = some y) (heq : m.compare n = Binary64.compareFloat x y) : Uniform op m n
  /-- Of a cell only the truth of its number matters to a logical operator. -/
  | truth {op : BinaryOp} {m n : Number} (hop : op = .and ∨ op = .or) : Uniform op m n

/-- Numbers of which a unary operator makes the same as of their cells. -/
inductive UnaryOp.Uniform : UnaryOp → Number → Prop
  | neg {n : Number} (h : n.integer? = none) : Uniform .neg n
  | negWord {i : Int} (h : CellKind.word.fits i) (hneg : CellKind.word.fits (-i)) :
    Uniform .neg (.int i)
  | pos {n : Number} (h : ∀ b, n ≠ .truth b) : Uniform .pos n
  | not {n : Number} : Uniform .not n

theorem Value.ofTensor_single {k : CellKind} {v : Value} (h : k ≠ .mixed) :
    ofTensor (.single k v) = cell k v := if_neg h

theorem CellKind.join_ofNumber (m n : Number) : (ofNumber m).join (ofNumber n) ≠ .text := by
  have hkind (n : Number) : ofNumber n ≠ .text := by
    cases n with
    | int i =>
      simp only [ofNumber]
      (repeat' split) <;> decide
    | _ =>
      intro heq
      cases heq
  have hjoin (j k : CellKind) (hj : j ≠ .text) (hk : k ≠ .text) : j.join k ≠ .text := by
    cases j <;> cases k <;> first | exact absurd rfl hj | exact absurd rfl hk | decide
  exact hjoin _ _ (hkind m) (hkind n)

namespace BinaryOp

theorem arithmetic_of_carries (op : BinaryOp) (ha : a.Carries m) (hb : b.Carries n) :
    op.arithmetic a b = if a.isOfArray || b.isOfArray then op.onArrays a b
      else op.onPlain (number m) (number n) := by
  cases ha <;> cases hb <;> cases op <;> rfl

/-- Where the array of the result carries a number, so does the result. -/
theorem arithmetic_carries {A B : Operand} {k : CellKind} (ha : a.Carries m) (hb : b.Carries n)
    (hA : Operand.ofValue a = .ok A) (hB : Operand.ofValue b = .ok B)
    (hr : op.onNumbers m n = .ok (.inl r)) (hk : CellKind.ofNumber r = k) (hmixed : k ≠ .mixed)
    (h : Operand.arith op A B = .ok (.single k (number r))) :
    ∃ w, op.arithmetic a b = .ok w ∧ w.Carries r := by
  subst hk
  rw [arithmetic_of_carries op ha hb]
  split
  · refine ⟨cell (.ofNumber r) (number r), ?_, .cell hmixed⟩
    simp only [onArrays, hA, hB, h, bind, Except.bind]
    exact congrArg Except.ok (ofTensor_single hmixed)
  · exact ⟨number r, by simp only [onPlain, hr], .number r⟩

theorem comparison_carries {A B : Operand} {c : Bool} (ha : a.Carries m) (hb : b.Carries n)
    (hA : Operand.ofValue a = .ok A) (hB : Operand.ofValue b = .ok B)
    (hc : op.holds (m.compare n) = c)
    (h : Operand.comparison op A B = .ok (.single .truth (Value.truth c))) :
    ∃ w, op.comparison a b = .ok w ∧ w.Carries (.truth c) := by
  have hkind {a : Value} {m : Number} (ha : a.Carries m) : a.kind = .ofNumber m := by
    cases ha <;> rfl
  have htext : isTextBesideOther a b = false := by
    simp only [isTextBesideOther, hkind ha, hkind hb, CellKind.join_ofNumber, decide_false,
      Bool.and_false, Bool.false_and]
  have hcomparison : op.comparison a b = if a.isOfArray || b.isOfArray
      then (do return ofTensor (← Operand.comparison op A B)) else .ok (Value.truth c) := by
    cases ha <;> cases hb <;> simp [comparison, isOfArray, htext, hA, hB, hc, comparePlain] <;> rfl
  rw [hcomparison, h]
  split
  · exact ⟨_, rfl, .cell (n := .truth c) nofun⟩
  · exact ⟨_, rfl, .number (.truth c)⟩

theorem apply_of_isArithmetic (hop : op.isArithmetic) (a b : Value) :
    op.apply a b = op.arithmetic a b := by
  cases op <;> first | rfl | cases hop

theorem apply_of_isComparison (hop : op.isComparison) (a b : Value) :
    op.apply a b = op.comparison a b := by
  cases op <;> first | rfl | cases hop

/-- Of plain numbers an arithmetic operator makes what it makes of numbers. -/
theorem onNumbers_of_apply (hop : op.isArithmetic)
    (hr : op.apply (number m) (number n) = .ok (number r)) : op.onNumbers m n = .ok (.inl r) := by
  rw [apply_of_isArithmetic hop, arithmetic_of_carries op (.number m) (.number n)] at hr
  simp only [isOfArray, Bool.or_self, Bool.false_eq_true, if_false, onPlain] at hr
  split at hr
  · cases hr
  · next h => cases hr; exact h
  · cases hr

theorem apply_numbers_of_isComparison (hop : op.isComparison) :
    op.apply (number m) (number n) = .ok (number (.truth (op.holds (m.compare n)))) := by
  rw [apply_of_isComparison hop]
  show (op.comparePlain (number m) (number n)).map Value.truth = _
  rw [comparePlain]
  rfl

/-- Of values that carry numbers on which an operator is uniform, it makes one that carries the
number it makes of these. -/
theorem apply_uniform (h : op.Uniform m n) (ha : a.Carries m) (hb : b.Carries n)
    (hr : op.apply (number m) (number n) = .ok (number r)) :
    ∃ w, op.apply a b = .ok w ∧ w.Carries r := by
  cases h with
  | floats h hop =>
    have hr := onNumbers_of_apply hop hr
    obtain ⟨x, y, hx, hy, rfl⟩ := onNumbers_real h hr
    obtain ⟨A, B, hA, hB, harith⟩ := Operand.arith_real op ha hb h hx hy
    rw [apply_of_isArithmetic hop]
    exact arithmetic_carries ha hb hA hB hr rfl nofun harith
  | words hm hn htruth hk hfits =>
    have hop := onNumbers_isArithmetic hk
    have hr := onNumbers_of_apply hop hr
    cases hk.symm.trans hr
    obtain ⟨A, B, hA, hB, harith⟩ := Operand.arith_word ha hb hm hn htruth hk hfits
    rw [apply_of_isArithmetic hop]
    exact arithmetic_carries ha hb hA hB hr (CellKind.ofNumber_of_fits hfits) nofun harith
  | quotient hm hn hx hy h =>
    have hr := onNumbers_of_apply rfl hr
    obtain ⟨s, hs, hsr⟩ := map_eq_ok.1 hr
    cases hsr
    cases h.symm.trans hs
    obtain ⟨A, B, hA, hB, harith⟩ := Operand.arith_quotient ha hb hm hn hx hy
    exact arithmetic_carries ha hb hA hB hr rfl nofun harith
  | order hop hm hn =>
    rw [apply_numbers_of_isComparison hop] at hr
    cases hr
    obtain ⟨A, B, hA, hB, hcomparison⟩ := Operand.comparison_word op ha hb hm hn
    rw [apply_of_isComparison hop]
    exact comparison_carries ha hb hA hB rfl hcomparison
  | floatOrder hop h hx hy heq =>
    rw [apply_numbers_of_isComparison hop] at hr
    cases hr
    obtain ⟨A, B, hA, hB, hcomparison⟩ := Operand.comparison_real op ha hb h hx hy
    rw [apply_of_isComparison hop]
    exact comparison_carries ha hb hA hB rfl (heq ▸ hcomparison)
  | truth hop =>
    have hlogical : op.apply a b = op.apply (number m) (number n) := by
      have htensor {n : Number} : (number n).isTensor = false := rfl
      have htrue {n : Number} : (number n).isTrue = .ok n.isTrue := rfl
      rcases hop with rfl | rfl <;>
        simp only [apply, logical, ha.isTensor, hb.isTensor, htensor, Bool.or_self,
          Bool.false_eq_true, if_false, ha.isTrue, hb.isTrue, htrue]
    exact ⟨_, hlogical.trans hr, .number r⟩

end BinaryOp

/-- Of a value that carries a number on which an operator is uniform, it makes one that carries the
number it makes of this. -/
theorem UnaryOp.apply_uniform {op : UnaryOp} (h : op.Uniform n) (ha : a.Carries n)
    (hr : op.apply (number n) = .ok (number r)) : ∃ w, op.apply a = .ok w ∧ w.Carries r := by
  cases ha with
  | number => exact ⟨_, hr, .number r⟩
  | cell hkind =>
    cases h with
    | not =>
      cases hr
      exact ⟨_, rfl, .number _⟩
    | neg h =>
      obtain ⟨x, rfl⟩ := Number.eq_real h
      cases hr
      exact ⟨_, rfl, .cell (n := .real (-x)) nofun⟩
    | @negWord i hfits hneg =>
      cases hr
      refine ⟨cell .word (int (-i)), ?_, ?_⟩
      · rw [CellKind.ofNumber_of_fits hfits]
        show Except.ok (cell .word (int (CellKind.word.wrap (-CellKind.word.wrap i)))) = _
        rw [CellKind.wrap_of_fits hfits, CellKind.wrap_of_fits hneg]
      · rw [← CellKind.ofNumber_of_fits hneg]
        exact .cell (CellKind.ofNumber_of_fits hneg ▸ nofun)
    | pos h =>
      have hpos : (Tensor.single (.ofNumber n) (number n)).pos =
          .ok (.single (.ofNumber n) (number n)) := by
        cases n with
        | int i =>
          rcases (CellKind.fits_ofNumber hkind).1 with hk | hk <;> rw [hk] <;> rfl
        | real x => rfl
        | truth b => exact absurd rfl (h b)
      have hr : n = r := by
        cases n with
        | truth b => exact absurd rfl (h b)
        | _ => cases hr; rfl
      subst hr
      refine ⟨cell (.ofNumber n) (number n), ?_, .cell hkind⟩
      show (Tensor.pos _).map ofTensor = _
      rw [hpos]
      exact congrArg Except.ok (ofTensor_single hkind)

end PlateModel
