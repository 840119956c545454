import Mathlib.Data.List.Induction
import Mathlib.Data.List.TakeWhile
import Mathlib.Tactic.IntervalCases
import PlateModel.Decimal.Basic
import PlateModel.Decimal.Reading

/-!
# Digits and the characters of numerals

The texts that numbers are written as hold few characters. None of them is a blank, an underscore or
a digit of another script, so cleaning such a text before it is read leaves it as it is.

* `numeralChars`, `IsNumeral`: the characters of written numbers and the texts made of them.
* `natOfDigits_toDigits`, `natOfDigits_append`: the value of digits.
* `integer?_digits`: a sign and digits are read as an integer.
-/

namespace PlateModel.Decimal

open Text

/-- The characters that written numbers are made of. -/
def numeralChars : List Char := "+-.0123456789aefin".toList

/-- A text made of the characters of written numbers. -/
def IsNumeral (cs : List Char) : Prop := ∀ c ∈ cs, c ∈ numeralChars

theorem isNumeral_append {cs ds : List Char} :
    IsNumeral (cs ++ ds) ↔ IsNumeral cs ∧ IsNumeral ds := List.forall_mem_append

theorem isNumeral_cons {c : Char} {cs : List Char} :
    IsNumeral (c :: cs) ↔ c ∈ numeralChars ∧ IsNumeral cs := List.forall_mem_cons

/-- What a check of a list finds holds of all its elements. -/
theorem forall_mem_of_all {α : Type} {p : α → Prop} [DecidablePred p] {l : List α}
    (h : l.all fun a => p a) : ∀ a ∈ l, p a := by
  simpa using h

/-- What reading a number does with one character of a written number: nothing. -/
theorem numeralChar_clean : ∀ c ∈ numeralChars,
    normalizeDigit c = c ∧ isAsciiBlank c = false ∧ c ≠ '_' :=
  forall_mem_of_all (by decide)

theorem isDigit_iff (c : Char) : isDigit c ↔ c ∈ "0123456789".toList := by
  constructor
  · intro h
    have hbounds : 48 ≤ c.toNat ∧ c.toNat ≤ 57 := by
      rw [isDigit, Bool.and_eq_true, decide_eq_true_eq, decide_eq_true_eq] at h
      exact h
    have hc : c = Char.ofNat c.toNat := (Char.ofNat_toNat c).symm
    obtain ⟨hlower, hupper⟩ := hbounds
    generalize c.toNat = n at *
    subst hc
    interval_cases n <;> decide
  · have hall : ∀ d ∈ "0123456789".toList, isDigit d := forall_mem_of_all (by decide)
    exact hall c

theorem numeralChar_of_isDigit {c : Char} (h : isDigit c) : c ∈ numeralChars := by
  have hsub : ∀ d ∈ "0123456789".toList, d ∈ numeralChars :=
    forall_mem_of_all (by decide)
  exact hsub c ((isDigit_iff c).1 h)

/-- A digit is no sign, no letter and no underscore. -/
theorem digit_clean {c : Char} (h : isDigit c) :
    c ≠ '-' ∧ c ≠ '+' ∧ c ≠ '_' ∧ c.toLower = c ∧ c ≠ 'n' ∧ c ≠ 'i' := by
  have hall : ∀ d ∈ "0123456789".toList,
      d ≠ '-' ∧ d ≠ '+' ∧ d ≠ '_' ∧ d.toLower = d ∧ d ≠ 'n' ∧ d ≠ 'i' :=
    forall_mem_of_all (by decide)
  exact hall c ((isDigit_iff c).1 h)

/-! ## Cleaning -/

theorem normalizeDigits_of_isNumeral {cs : List Char} (h : IsNumeral cs) :
    normalizeDigits cs = cs :=
  (List.map_congr_left fun c hc => (numeralChar_clean c (h c hc)).1).trans (List.map_id' cs)

theorem dropWhile_isAsciiBlank {cs : List Char} (h : ∀ c ∈ cs, isAsciiBlank c = false) :
    cs.dropWhile isAsciiBlank = cs := by
  cases cs with
  | nil => rfl
  | cons c cs => rw [List.dropWhile_cons_of_neg]; simp [h c (by simp)]

theorem trimBlanks_of_blankless {cs : List Char} (h : ∀ c ∈ cs, isAsciiBlank c = false) :
    trimBlanks cs = cs := by
  have hreverse : ∀ c ∈ cs.reverse, isAsciiBlank c = false :=
    fun c hc => h c (List.mem_reverse.1 hc)
  rw [trimBlanks, dropWhile_isAsciiBlank h, dropWhile_isAsciiBlank hreverse, List.reverse_reverse]

theorem trimBlanks_of_isNumeral {cs : List Char} (h : IsNumeral cs) : trimBlanks cs = cs :=
  trimBlanks_of_blankless fun c hc => (numeralChar_clean c (h c hc)).2.1

theorem dropUnderscores?_of_notMem {cs : List Char} (h : '_' ∉ cs) :
    dropUnderscores? cs = some cs := by
  fun_induction dropUnderscores? cs with
  | case1 => rfl
  | case2 rest => exact absurd (by simp) h
  | case3 c d rest => exact absurd (by simp) h
  | case4 c d rest => exact absurd (by simp) h
  | case5 c rest _ _ ih => rw [ih fun hrest => h (List.mem_cons_of_mem c hrest), Option.map_some]

theorem dropUnderscores?_of_isNumeral {cs : List Char} (h : IsNumeral cs) :
    dropUnderscores? cs = some cs :=
  dropUnderscores?_of_notMem fun hc => (numeralChar_clean _ (h '_' hc)).2.2 rfl

/-! ## Digits -/

/-- All characters of a text are digits. -/
def IsDigits (cs : List Char) : Prop := ∀ c ∈ cs, isDigit c

theorem IsDigits.isNumeral {cs : List Char} (h : IsDigits cs) : IsNumeral cs :=
  fun c hc => numeralChar_of_isDigit (h c hc)

theorem isDigits_append {cs ds : List Char} :
    IsDigits (cs ++ ds) ↔ IsDigits cs ∧ IsDigits ds := List.forall_mem_append

theorem isDigits_replicate (n : Nat) : IsDigits (List.replicate n '0') := by
  intro c hc
  rw [List.eq_of_mem_replicate hc]
  decide

theorem isDigits_toDigits (n : Nat) : IsDigits (Nat.toDigits 10 n) := by
  intro c hc
  have h := Nat.isDigit_of_mem_toDigits (by decide) (by decide) hc
  simpa [isDigit, Char.isDigit, Char.le_def, and_comm] using h

theorem separatedDigits?_of_isDigits {ds : List Char} (h : IsDigits ds) (hne : ds ≠ []) :
    separatedDigits? ds = some ds := by
  fun_induction separatedDigits? ds with
  | case1 => exact absurd rfl hne
  | case2 c hc => rfl
  | case3 c hc => exact absurd (h c (by simp)) hc
  | case4 c rest => exact absurd rfl (digit_clean (h '_' (by simp))).2.2.1
  | case5 c rest => exact absurd rfl (digit_clean (h '_' (by simp))).2.2.1
  | case6 c rest hrest _ _ ih =>
    rw [ih (fun d hd => h d (List.mem_cons_of_mem c hd)) (fun he => hrest he), Option.map_some]
  | case7 c rest _ _ hc => exact absurd (h c (by simp)) hc

theorem isDigits_of_separatedDigits? {cs ds : List Char} (h : separatedDigits? cs = some ds) :
    IsDigits ds := by
  fun_induction separatedDigits? cs generalizing ds with
  | case1 | case3 | case5 | case7 => simp at h
  | case2 c hc =>
    cases h
    exact fun d hd => (List.mem_singleton.1 hd).symm ▸ hc
  | case4 c rest hc ih | case6 c rest _ _ hc ih =>
    obtain ⟨es, hes, rfl⟩ := Option.map_eq_some_iff.1 h
    exact List.forall_mem_cons.2 ⟨hc, ih hes⟩

theorem splitSign_of_isDigits {ds rest : List Char} (h : IsDigits ds) (hne : ds ≠ []) :
    splitSign (ds ++ rest) = (false, ds ++ rest) := by
  cases ds with
  | nil => exact absurd rfl hne
  | cons c ds =>
    have hc := digit_clean (h c (by simp))
    simp [splitSign, hc]

theorem natOfDigits_eq (cs : List Char) : natOfDigits cs = Nat.ofDigitChars 10 cs 0 := by
  simp only [natOfDigits, Nat.ofDigitChars_eq_foldl, Nat.mul_comm 10]
  rfl

theorem natOfDigits_append (cs ds : List Char) :
    natOfDigits (cs ++ ds) = natOfDigits cs * 10 ^ ds.length + natOfDigits ds := by
  simp only [natOfDigits_eq, Nat.ofDigitChars_append]
  rw [Nat.ofDigitChars_eq_ofDigitChars_zero, Nat.mul_comm]

theorem natOfDigits_replicate (n : Nat) : natOfDigits (List.replicate n '0') = 0 := by
  rw [natOfDigits_eq, Nat.ofDigitChars_replicate_zero, Nat.mul_zero]

theorem natOfDigits_toDigits (n : Nat) : natOfDigits (Nat.toDigits 10 n) = n := by
  rw [natOfDigits_eq, Nat.ofDigitChars_ten_toDigits]

theorem natOfDigits_lt {ds : List Char} (h : IsDigits ds) :
    natOfDigits ds < 10 ^ ds.length := by
  induction ds using List.reverseRecOn with
  | nil => decide
  | append_singleton ds c ih =>
    obtain ⟨hds, hc⟩ := isDigits_append.1 h
    have hall : ∀ d ∈ "0123456789".toList, natOfDigits [d] < 10 :=
      forall_mem_of_all (by decide)
    have hlast := hall c ((isDigit_iff c).1 (hc c (by simp)))
    have hfront := ih hds
    rw [natOfDigits_append, List.length_append, List.length_singleton, Nat.pow_one, Nat.pow_succ]
    omega

/-- Zeros in front do not count. -/
theorem natOfDigits_dropWhile (cs : List Char) :
    natOfDigits (cs.dropWhile (· = '0')) = natOfDigits cs := by
  induction cs with
  | nil => rfl
  | cons c cs ih =>
    by_cases hc : c = '0'
    · subst hc
      have hzero : natOfDigits ('0' :: cs) = natOfDigits cs := rfl
      rw [List.dropWhile_cons_of_pos (by simp), ih, hzero]
    · rw [List.dropWhile_cons_of_neg (by simpa using hc)]

/-! ## Integers -/

/-- The sign of a written number. -/
def signChars (negative : Bool) : List Char := if negative then ['-'] else []

theorem isNumeral_signChars (negative : Bool) : IsNumeral (signChars negative) := by
  have hminus : '-' ∈ numeralChars := by decide
  cases negative with
  | true => exact isNumeral_cons.2 ⟨hminus, List.forall_mem_nil _⟩
  | false => exact List.forall_mem_nil _

theorem splitSign_signChars (negative : Bool) {ds rest : List Char} (h : IsDigits ds)
    (hne : ds ≠ []) : splitSign (signChars negative ++ (ds ++ rest)) = (negative, ds ++ rest) := by
  cases negative with
  | true => rw [signChars, if_pos rfl, List.singleton_append, splitSign]
  | false =>
    rw [signChars, if_neg Bool.false_ne_true, List.nil_append]
    exact splitSign_of_isDigits h hne

/-- A sign and digits, not too many, are an integer. -/
theorem integer?_digits (negative : Bool) {ds : List Char} (h : IsDigits ds) (hne : ds ≠ [])
    (hlength : ds.length ≤ maxDigits) :
    integer? (signChars negative ++ ds) =
      some (if negative then -(natOfDigits ds : Int) else natOfDigits ds) := by
  have hnumeral : IsNumeral (signChars negative ++ ds) :=
    isNumeral_append.2 ⟨isNumeral_signChars negative, h.isNumeral⟩
  have hsign : splitSign (signChars negative ++ (ds ++ [])) = (negative, ds ++ []) :=
    splitSign_signChars negative h hne
  rw [List.append_nil] at hsign
  rw [integer?, normalizeDigits_of_isNumeral hnumeral, trimBlanks_of_isNumeral hnumeral, hsign]
  simp only [separatedDigits?_of_isDigits h hne, Nat.not_lt.2 hlength, if_false]

/-- An integer of few enough digits to be read and written. -/
def IsShort (i : Int) : Prop := i.natAbs < 10 ^ maxDigits

theorem isShort_zero : IsShort 0 := Nat.pow_pos (by decide)

/-- An integer that was read may be written. -/
theorem isShort_of_integer? {cs : List Char} {i : Int} (h : integer? cs = some i) :
    IsShort i := by
  rw [integer?] at h
  generalize splitSign (trimBlanks (normalizeDigits cs)) = split at h
  obtain ⟨negative, body⟩ := split
  dsimp only at h
  split at h
  · cases h
  · next ds hds =>
    split at h
    · cases h
    · next hlength =>
      have hlt := natOfDigits_lt (isDigits_of_separatedDigits? hds)
      have hpow : 10 ^ ds.length ≤ 10 ^ maxDigits := Nat.pow_le_pow_right (by decide) (by omega)
      have hi : i.natAbs = natOfDigits ds := by
        cases h
        split
        · rw [Int.natAbs_neg, Int.natAbs_natCast]
        · rw [Int.natAbs_natCast]
      rw [IsShort, hi]
      exact hlt.trans_le hpow

theorem ofInt_toList (i : Int) :
    (ofInt i).toList = signChars (decide (i < 0)) ++ Nat.toDigits 10 i.natAbs := by
  by_cases h : i < 0 <;> simp [ofInt, signChars, h]

theorem isNumeral_ofInt (i : Int) : IsNumeral (ofInt i).toList := by
  rw [ofInt_toList]
  exact isNumeral_append.2 ⟨isNumeral_signChars _, (isDigits_toDigits _).isNumeral⟩

/-- An integer that may be written is read back. -/
theorem integer?_ofInt {i : Int} (h : IsShort i) :
    integer? (ofInt i).toList = some i := by
  have hlength : (Nat.toDigits 10 i.natAbs).length ≤ maxDigits :=
    (Nat.length_toDigits_le_iff (by decide) (by decide)).2 h
  rw [ofInt_toList, integer?_digits _ (isDigits_toDigits _) Nat.toDigits_ne_nil hlength,
    natOfDigits_toDigits]
  by_cases hi : i < 0
  · simp only [hi, decide_true, if_true]
    congr 1
    omega
  · simp only [hi, decide_false, Bool.false_eq_true, if_false]
    congr 1
    omega

end PlateModel.Decimal
