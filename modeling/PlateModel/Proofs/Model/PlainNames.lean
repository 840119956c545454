import Mathlib.Tactic.IntervalCases
import PlateModel.Model.Form
import PlateModel.Proofs.Decimal.Digits

/-!
# Plain names and numbers

A plain name is written as a bare symbol, and a bare symbol is read as a number if it can be. A
plain name begins with no digit and no sign, so all that it can be mistaken for are the words that
stand for floats, in any case.

* `isNumberWord`: the words.
* `float?_plainName`: a plain name is read as a float exactly if it is one of them.
-/

namespace PlateModel.Form

open Text Decimal

/-- The words that stand for floats, in any case. -/
def isNumberWord (s : String) : Bool :=
  ["nan", "inf", "infinity"].contains (String.ofList (lower s.toList))

theorem isLetter_iff (c : Char) :
    isLetter c ↔ (65 ≤ c.toNat ∧ c.toNat ≤ 90) ∨ (97 ≤ c.toNat ∧ c.toNat ≤ 122) ∨ c = '_' := by
  simp only [isLetter, Bool.or_eq_true, Bool.and_eq_true, decide_eq_true_eq, or_assoc]
  rfl

theorem isDigit_iff_toNat (c : Char) : isDigit c ↔ 48 ≤ c.toNat ∧ c.toNat ≤ 57 := by
  simp only [isDigit, Bool.and_eq_true, decide_eq_true_eq]
  rfl

theorem normalizeDigit_ascii {c : Char} (h : c.toNat < 128) : normalizeDigit c = c := by
  have hall : ∀ n < 128, normalizeDigit (Char.ofNat n) = Char.ofNat n := by decide +kernel
  rw [← Char.ofNat_toNat c]
  exact hall _ h

/-- The characters of plain names are of ASCII and no blanks. -/
theorem nameChar_clean {c : Char} (h : isNameChar c) :
    c.toNat < 128 ∧ isAsciiBlank c = false := by
  simp only [isNameChar, Bool.or_eq_true, isLetter_iff, isDigit_iff_toNat, decide_eq_true_eq] at h
  have hbounds : 33 ≤ c.toNat ∧ c.toNat < 128 := by
    rcases h with (h | h) | h
    · rcases h with h | h | rfl
      · omega
      · omega
      · decide
    · omega
    · rw [h]
      decide
  refine ⟨hbounds.2, ?_⟩
  have hspace : c ≠ ' ' := by
    rintro rfl
    revert hbounds
    decide
  simp [isAsciiBlank, hspace]
  omega

theorem nameChars_of_isNameTail {cs : List Char} (h : isNameTail cs) (hfeed : '\n' ∉ cs) :
    ∀ c ∈ cs, isNameChar c := by
  fun_induction isNameTail cs with
  | case1 => simp
  | case2 => simp at hfeed
  | case3 c rest _ ih =>
    rw [Bool.and_eq_true] at h
    exact List.forall_mem_cons.2 ⟨h.1, ih h.2 fun hrest => hfeed (List.mem_cons_of_mem c hrest)⟩

/-- A plain name that does not end in a line feed. -/
structure NameText (cs : List Char) : Prop where
  chars : ∀ c ∈ cs, isNameChar c
  first : ∃ c rest, cs = c :: rest ∧ isLetter c

theorem nameText_of_isPlainName {s : String} (h : isPlainName s) (hfeed : '\n' ∉ s.toList) :
    NameText s.toList := by
  rw [isPlainName] at h
  split at h
  · cases h
  · next c rest htext =>
    simp only [Bool.and_eq_true] at h
    rw [htext] at hfeed ⊢
    have hletter : isNameChar c := by simp [isNameChar, h.1.1]
    have hrest := nameChars_of_isNameTail h.1.2 fun hc => hfeed (List.mem_cons_of_mem c hc)
    exact ⟨List.forall_mem_cons.2 ⟨hletter, hrest⟩, c, rest, rfl, h.1.1⟩

section NameText

variable {cs : List Char} (h : NameText cs)

include h

theorem NameText.normalizeDigits : normalizeDigits cs = cs :=
  (List.map_congr_left fun c hc => normalizeDigit_ascii (nameChar_clean (h.chars c hc)).1).trans
    (List.map_id' cs)

theorem NameText.trimBlanks : trimBlanks cs = cs :=
  trimBlanks_of_blankless fun c hc => (nameChar_clean (h.chars c hc)).2

end NameText

/-- A letter is no digit, no sign and no point. -/
theorem letter_clean {c : Char} (h : isLetter c) :
    isDigit c = false ∧ c ≠ '-' ∧ c ≠ '+' ∧ c ≠ '.' := by
  rw [isLetter_iff] at h
  refine ⟨?_, ?_, ?_, ?_⟩
  · rw [Bool.eq_false_iff, ne_eq, isDigit_iff_toNat]
    rcases h with h | h | rfl
    · omega
    · omega
    · decide
  all_goals
    rintro rfl
    revert h
    decide

theorem splitSign_of_letter {c : Char} (h : isLetter c) (rest : List Char) :
    splitSign (c :: rest) = (false, c :: rest) := by
  obtain ⟨-, hminus, hplus, -⟩ := letter_clean h
  simp [splitSign, hminus, hplus]

/-- A plain name is not read as an integer. -/
theorem integer?_plainName {cs : List Char} (h : NameText cs) : integer? cs = none := by
  rw [integer?, h.normalizeDigits, h.trimBlanks]
  obtain ⟨c, rest, rfl, hletter⟩ := h.first
  have hdigit := (letter_clean hletter).1
  have hnone : separatedDigits? (c :: rest) = none := by
    unfold separatedDigits?
    split <;> simp_all
  rw [splitSign_of_letter hletter]
  simp only [hnone]

/-- The first character is no underscore and stays the first one. -/
theorem head_of_dropUnderscores? {c : Char} {rest body : List Char}
    (h : dropUnderscores? (c :: rest) = some body) : ∃ more, body = c :: more := by
  unfold dropUnderscores? at h
  split at h
  · next heq => cases heq
  · cases h
  · next heq =>
    cases heq
    split at h
    · obtain ⟨more, -, rfl⟩ := Option.map_eq_some_iff.1 h
      exact ⟨more, rfl⟩
    · cases h
  · next heq =>
    cases heq
    obtain ⟨more, -, rfl⟩ := Option.map_eq_some_iff.1 h
    exact ⟨more, rfl⟩

/-- Where no digit is left there was no underscore. -/
theorem eq_of_dropUnderscores? {cs body : List Char} (h : dropUnderscores? cs = some body)
    (hdigits : ∀ c ∈ body, isDigit c = false) : body = cs := by
  fun_induction dropUnderscores? cs generalizing body with
  | case1 => exact (Option.some.inj h).symm
  | case2 => cases h
  | case3 c d rest _ hdigit ih =>
    obtain ⟨more, -, rfl⟩ := Option.map_eq_some_iff.1 h
    simp [hdigits c (by simp)] at hdigit
  | case4 => cases h
  | case5 c rest _ _ ih =>
    obtain ⟨more, hmore, rfl⟩ := Option.map_eq_some_iff.1 h
    rw [ih hmore fun d hd => hdigits d (List.mem_cons_of_mem c hd)]

/-- A text that begins with a letter is read as a float only as a word. -/
theorem float?_nameText {cs : List Char} (h : NameText cs) :
    float? cs = (dropUnderscores? cs).bind fun body =>
      if lower body = "nan".toList then some Binary64.nan
      else if lower body = "inf".toList ∨ lower body = "infinity".toList then
        some Binary64.infinity
      else none := by
  rw [float?, h.normalizeDigits, h.trimBlanks]
  obtain ⟨c, rest, rfl, hletter⟩ := h.first
  cases hdrop : dropUnderscores? (c :: rest) with
  | none => rfl
  | some body =>
    obtain ⟨more, rfl⟩ := head_of_dropUnderscores? hdrop
    obtain ⟨hdigit, -, -, hpoint⟩ := letter_clean hletter
    have htake : (c :: more).takeWhile isDigit = [] :=
      List.takeWhile_cons_of_neg (by simp [hdigit])
    have hrest : (c :: more).dropWhile isDigit = c :: more :=
      List.dropWhile_cons_of_neg (by simp [hdigit])
    rw [Option.bind_some]
    dsimp only
    rw [splitSign_of_letter hletter]
    split
    · rfl
    · split
      · rfl
      · simp only [htake, hrest]
        split
        · next heq => exact absurd (List.cons.inj heq).1 hpoint
        · rfl

theorem isNumberWord_iff (s : String) : isNumberWord s ↔ lower s.toList = "nan".toList ∨
    lower s.toList = "inf".toList ∨ lower s.toList = "infinity".toList := by
  have hword : ∀ word : String, String.ofList (lower s.toList) = word ↔
      lower s.toList = word.toList := fun word => by rw [← String.toList_inj, String.toList_ofList]
  simp only [isNumberWord, List.contains_cons, List.contains_nil, Bool.or_false, Bool.or_eq_true,
    beq_iff_eq, hword]

/-- The words hold no digit and no underscore. -/
theorem word_clean {cs : List Char}
    (h : lower cs = "nan".toList ∨ lower cs = "inf".toList ∨ lower cs = "infinity".toList) :
    ∀ c ∈ cs, isDigit c = false ∧ c ≠ '_' := by
  intro c hc
  have hmem : c.toLower ∈ lower cs := List.mem_map_of_mem hc
  have hletter : isDigit c.toLower = false ∧ c.toLower ≠ '_' := by
    have hwords : ∀ d ∈ "nan".toList ++ "inf".toList ++ "infinity".toList,
        isDigit d = false ∧ d ≠ '_' := forall_mem_of_all (by decide)
    refine hwords _ ?_
    rw [List.mem_append, List.mem_append]
    rcases h with h | h | h <;> rw [h] at hmem
    · exact .inl (.inl hmem)
    · exact .inl (.inr hmem)
    · exact .inr hmem
  constructor
  · cases hdigit : isDigit c with
    | false => rfl
    | true => simp [(digit_clean hdigit).2.2.2.1, hdigit] at hletter
  · rintro rfl
    exact hletter.2 (by decide)

/-- A plain name is read as a float exactly if it is a word that stands for one. -/
theorem float?_plainName {s : String} (h : NameText s.toList) :
    float? s.toList = none ↔ isNumberWord s = false := by
  rw [float?_nameText h, ← Bool.not_eq_true, isNumberWord_iff]
  constructor
  · intro hnone hword
    have hdrop := dropUnderscores?_of_notMem fun hc => (word_clean hword _ hc).2 rfl
    rw [hdrop, Option.bind_some] at hnone
    rcases hword with hword | hword
    · rw [if_pos hword] at hnone
      cases hnone
    · split at hnone
      · cases hnone
      · cases hnone
  · intro hword
    cases hdrop : dropUnderscores? s.toList with
    | none => rfl
    | some body =>
      have hbody : ¬ (lower body = "nan".toList ∨ lower body = "inf".toList ∨
          lower body = "infinity".toList) := fun hbody =>
        hword (eq_of_dropUnderscores? hdrop (fun c hc => (word_clean hbody c hc).1) ▸ hbody)
      rw [Option.bind_some, if_neg fun h => hbody (.inl h), if_neg fun h => hbody (.inr h)]

end PlateModel.Form
