import PlateModel.Number.Arithmetic
import PlateModel.Proofs.Decimal.RoundTrip
import PlateModel.Proofs.Model.PlainNames

/-!
# The words of printed formulas

The operands of a printed formula are its names and its numbers. Each is one word, apart from the
minus sign that a number may begin with, and it can be told from the word what it stands for.

* `IsWord`, `IsNameWord`: the texts between operators, and those of them that stand for names.
* `Number.source_isSigned`: the text of a number with a sign is that of its negation behind a minus.
* `Number.eq_of_source_eq`: numbers without signs are known by their texts.
-/

namespace PlateModel

open Text Decimal

/-! ## Words -/

/-- A text without blanks and closing brackets that does not begin like an operand of another
kind. -/
structure IsWord (cs : List Char) : Prop where
  first : ∃ c ∈ cs.head?, c ∉ "(-+!".toList
  inside : ∀ c ∈ cs, c ≠ ' ' ∧ c ≠ ')'

/-- A word that does not begin with a digit. -/
structure IsNameWord (cs : List Char) : Prop extends IsWord cs where
  noDigit : ∀ c ∈ cs.head?, ¬isDigit c

/-- A letter or an underscore, and then letters, digits, underscores and points. -/
theorem isNameWord_of_nameText {cs : List Char} (h : Form.NameText cs) : IsNameWord cs where
  first := by
    obtain ⟨c, rest, rfl, hletter⟩ := h.first
    have hall : ∀ d ∈ "(-+!".toList, ¬Form.isLetter d := forall_mem_of_all (by decide)
    exact ⟨c, rfl, fun hc => hall c hc hletter⟩
  inside c hc := by
    have hchar := h.chars c hc
    constructor <;>
    · rintro rfl
      revert hchar
      decide
  noDigit c hc := by
    obtain ⟨d, rest, rfl, hletter⟩ := h.first
    cases hc
    have hall : ∀ d ∈ "0123456789".toList, ¬Form.isLetter d := forall_mem_of_all (by decide)
    exact fun hdigit => hall c ((isDigit_iff c).1 hdigit) hletter

/-- A numeral that begins with a digit is a word. -/
theorem isWord_of_isNumeral {cs : List Char} (h : IsNumeral cs)
    (hfirst : ∃ c ∈ cs.head?, isDigit c) : IsWord cs where
  first := by
    obtain ⟨c, hc, hdigit⟩ := hfirst
    have hall : ∀ d ∈ "(-+!".toList, ¬isDigit d := forall_mem_of_all (by decide)
    exact ⟨c, hc, fun hmem => hall c hmem hdigit⟩
  inside := by
    have hall : ∀ d ∈ numeralChars, d ≠ ' ' ∧ d ≠ ')' := forall_mem_of_all (by decide)
    exact fun c hc => hall c (h c hc)

/-! ## Digits in front -/

theorem toDigits_first (n : Nat) : ∃ c ∈ (Nat.toDigits 10 n).head?, isDigit c := by
  cases hdigits : Nat.toDigits 10 n with
  | nil => exact absurd hdigits Nat.toDigits_ne_nil
  | cons c rest => exact ⟨c, rfl, isDigits_toDigits n c (by simp [hdigits])⟩

/-- The layout of a decimal begins with a digit. -/
theorem layout_first (d : Decimal) : ∃ c ∈ (layout sourceStyle d).toList.head?, isDigit c := by
  obtain ⟨c, hfirst, hc⟩ := toDigits_first d.digits
  have hzero : isDigit '0' := by decide
  rw [layout]
  simp only [Nat.toList_repr, sourceStyle]
  cases hdigits : Nat.toDigits 10 d.digits with
  | nil => exact absurd hdigits Nat.toDigits_ne_nil
  | cons b rest =>
    rw [hdigits] at hfirst
    cases hfirst
    split
    · exact ⟨'0', by decide, hzero⟩
    · split
      · split
        · exact ⟨c, by simp [hdigits], hc⟩
        · split
          · exact ⟨c, by simp, hc⟩
          · exact ⟨'0', by simp, hzero⟩
      · cases rest with
        | nil => exact ⟨c, by simp, hc⟩
        | cons b more => exact ⟨c, by simp, hc⟩

/-! ## Numbers -/

namespace Number

/-- An integer, or a float that is neither infinite nor no number. -/
def IsFinite : Number → Prop
  | int _ => True
  | real x => ∃ negative m q, Binary64.parts x = .finite negative m q
  | truth _ => False

/-- Whether the text of a number begins with a minus. -/
def isSigned : Number → Bool
  | int i => i < 0
  | real x =>
    match Binary64.parts x with
    | .finite negative _ _ => negative
    | _ => false
  | truth _ => false

/-- Negating a finite number twice changes nothing. -/
theorem neg_neg_of_isFinite {v : Number} (h : v.IsFinite) : v.neg.neg = v := by
  cases v with
  | int i => rw [neg, neg, Int.neg_neg]
  | real x =>
    obtain ⟨negative, m, q, hparts⟩ := h
    rw [neg, neg, Binary64.neg_neg_of_parts hparts]
  | truth b => exact h.elim

theorem isFinite_neg {v : Number} (h : v.IsFinite) : v.neg.IsFinite := by
  cases v with
  | int i => trivial
  | real x =>
    obtain ⟨negative, m, q, hparts⟩ := h
    exact ⟨_, _, _, Binary64.parts_neg hparts⟩
  | truth b => exact h.elim

/-- The negation of a number with a sign has none. -/
theorem isSigned_neg {v : Number} (h : v.IsFinite) (hsigned : v.isSigned) :
    v.neg.isSigned = false := by
  cases v with
  | int i =>
    simp only [isSigned, decide_eq_true_eq] at hsigned
    simp only [neg, isSigned, decide_eq_false_iff_not]
    omega
  | real x =>
    obtain ⟨negative, m, q, hparts⟩ := h
    simp only [isSigned, hparts] at hsigned
    simp only [neg, isSigned, Binary64.parts_neg hparts, hsigned, Bool.not_true]
  | truth b => exact h.elim

/-- The text of a number with a sign is that of its negation behind a minus. -/
theorem source_isSigned {v : Number} (h : v.IsFinite) (hsigned : v.isSigned) :
    v.source.toList = '-' :: v.neg.source.toList := by
  cases v with
  | int i =>
    simp only [isSigned, decide_eq_true_eq] at hsigned
    simp [neg, source, ofInt_toList, signChars, hsigned, hsigned.le]
  | real x =>
    obtain ⟨negative, m, q, hparts⟩ := h
    simp only [isSigned, hparts] at hsigned
    subst hsigned
    rw [source, neg, source, ofFloat, ofFloat, textOf, textOf, hparts, Binary64.parts_neg hparts]
    simp
  | truth b => exact h.elim

section Unsigned

variable {v : Number} (h : v.IsFinite) (hunsigned : v.isSigned = false)

include h hunsigned

/-- The text of a number without a sign begins with a digit. -/
theorem source_first : ∃ c ∈ v.source.toList.head?, isDigit c := by
  cases v with
  | int i =>
    simp only [isSigned, decide_eq_false_iff_not] at hunsigned
    simpa [source, ofInt_toList, signChars, hunsigned] using toDigits_first i.natAbs
  | real x =>
    obtain ⟨negative, m, q, hparts⟩ := h
    simp only [isSigned, hparts] at hunsigned
    subst hunsigned
    rw [source, ofFloat, textOf, hparts]
    simpa using layout_first _
  | truth b => exact h.elim

/-- The text of a number without a sign is a word. -/
theorem isWord_source : IsWord v.source.toList := by
  refine isWord_of_isNumeral ?_ (source_first h hunsigned)
  cases v with
  | int i => exact isNumeral_ofInt i
  | real x => exact isNumeral_ofFloat x
  | truth b => exact h.elim

end Unsigned

/-- The text of an integer is not the text of a finite float. -/
theorem ofInt_ne_ofFloat {x : Float} {negative : Bool} {m : Nat} {q : Int}
    (h : Binary64.parts x = .finite negative m q) (i : Int) :
    (ofInt i).toList ≠ (ofFloat x).toList := by
  obtain ⟨text, d, hwrites, htext, -⟩ := ofFloat_finite h
  have hpoint : isDigit '.' = false ∧ isDigit 'e' = false := by decide
  have hchars : ∀ c ∈ (ofInt i).toList, c = '-' ∨ isDigit c := by
    intro c hc
    rw [ofInt_toList] at hc
    rcases List.mem_append.1 hc with hc | hc
    · unfold signChars at hc
      split at hc
      · exact .inl (List.mem_singleton.1 hc)
      · exact absurd hc List.not_mem_nil
    · exact .inr (isDigits_toDigits _ c hc)
  intro heq
  rw [heq, htext] at hchars
  rcases hwrites.marked with hmem | hmem
  · simpa [hpoint.1] using hchars '.' (List.mem_append_right _ hmem)
  · simpa [hpoint.2] using hchars 'e' (List.mem_append_right _ hmem)

/-- Integers without signs are known by their texts. -/
theorem eq_of_ofInt_eq {i j : Int} (hi : ¬i < 0) (hj : ¬j < 0)
    (h : (ofInt i).toList = (ofInt j).toList) : i = j := by
  simp only [ofInt_toList, signChars, hi, hj, decide_false, Bool.false_eq_true, if_false,
    List.nil_append] at h
  have habs := congrArg natOfDigits h
  rw [natOfDigits_toDigits, natOfDigits_toDigits] at habs
  omega

/-- Finite floats are known by their texts. -/
theorem eq_of_ofFloat_eq {x y : Float} (hx : IsFinite (real x)) (hy : IsFinite (real y))
    (h : (ofFloat x).toList = (ofFloat y).toList) : x = y := by
  obtain ⟨negative, m, q, hparts⟩ := hx
  obtain ⟨negative', m', q', hparts'⟩ := hy
  obtain ⟨text, -, -, htext, hread⟩ := ofFloat_finite hparts
  obtain ⟨text', -, -, htext', hread'⟩ := ofFloat_finite hparts'
  rw [← htext, h, htext', hread'] at hread
  exact (Option.some.inj hread).symm

/-- Finite numbers without signs are known by their texts. -/
theorem eq_of_source_eq {v w : Number} (hv : v.IsFinite) (hw : w.IsFinite)
    (hv' : v.isSigned = false) (hw' : w.isSigned = false)
    (h : v.source.toList = w.source.toList) : v = w := by
  cases v with
  | truth b => exact hv.elim
  | int i =>
    cases w with
    | truth b => exact hw.elim
    | real y =>
      obtain ⟨negative, m, q, hparts⟩ := hw
      exact absurd h (ofInt_ne_ofFloat hparts i)
    | int j =>
      simp only [isSigned, decide_eq_false_iff_not] at hv' hw'
      exact congrArg int (eq_of_ofInt_eq hv' hw' h)
  | real x =>
    cases w with
    | truth b => exact hw.elim
    | int j =>
      obtain ⟨negative, m, q, hparts⟩ := hv
      exact absurd h.symm (ofInt_ne_ofFloat hparts j)
    | real y => exact congrArg real (eq_of_ofFloat_eq hv hw h)

end Number

end PlateModel
