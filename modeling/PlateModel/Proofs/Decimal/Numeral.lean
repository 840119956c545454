import PlateModel.Proofs.Decimal.Digits
import PlateModel.Proofs.Decimal.Shortest

/-!
# Numerals that are read as floats

A numeral is a sign, digits, a fraction behind a point, and an exponent. Its text is read as the
float nearest to the decimal that it stands for, and never as an integer.

* `float?_pointed`, `float?_whole`: what a numeral with and without a point is read as.
* `exponent?_exponentText`: an exponent is read back.
* `scale_of_surrounds`: a decimal in the rounding interval of a float is rounded to it.
-/

namespace PlateModel.Decimal

open Text Binary64

/-! ## Exponents -/

theorem exponentText_toList (x : Int) : ∃ ds, IsDigits ds ∧ ds ≠ [] ∧
    natOfDigits ds = x.natAbs ∧ ds.length ≤ max 2 (Nat.toDigits 10 x.natAbs).length ∧
    (exponentText x).toList = 'e' :: (if x < 0 then '-' else '+') :: ds := by
  have hhead : (if x < 0 then "e-" else "e+").toList =
      ['e', if x < 0 then '-' else '+'] := by
    split <;> rfl
  have hdigits := isDigits_toDigits x.natAbs
  by_cases hshort : (Nat.repr x.natAbs).length < 2
  · have hlength : (Nat.toDigits 10 x.natAbs).length < 2 := by
      rw [← Nat.toList_repr, String.length_toList]
      exact hshort
    have hpadded : IsDigits (['0'] ++ Nat.toDigits 10 x.natAbs) :=
      isDigits_append.2 ⟨isDigits_replicate 1, hdigits⟩
    refine ⟨'0' :: Nat.toDigits 10 x.natAbs, hpadded, by simp, ?_, ?_, ?_⟩
    · exact natOfDigits_toDigits x.natAbs
    · rw [List.length_cons]
      omega
    · simp only [exponentText, hshort, if_true, String.toList_append, hhead, Nat.toList_repr]
      rfl
  · refine ⟨Nat.toDigits 10 x.natAbs, hdigits, Nat.toDigits_ne_nil, natOfDigits_toDigits _,
      le_max_right _ _, ?_⟩
    simp only [exponentText, hshort, if_false, String.toList_append, hhead, Nat.toList_repr]
    rfl

theorem exponent?_nil : exponent? [] = some 0 := rfl

/-- An exponent of at most twelve digits is read back. -/
theorem exponent?_exponentText {x : Int} (h : x.natAbs < 10 ^ 12) :
    exponent? (exponentText x).toList = some x := by
  obtain ⟨ds, hds, hne, hvalue, hlength, htext⟩ := exponentText_toList x
  have htwelve : (Nat.toDigits 10 x.natAbs).length ≤ 12 :=
    (Nat.length_toDigits_le_iff (by decide) (by decide)).2 h
  -- of the digits behind the leading zeros the reader takes no more than twelve
  have htake : (ds.dropWhile (· = '0')).take 12 = ds.dropWhile (· = '0') :=
    List.take_of_length_le ((List.dropWhile_sublist _).length_le.trans (by omega))
  have hall : ds.all isDigit = true := List.all_eq_true.2 hds
  have hempty : ds.isEmpty = false := List.isEmpty_eq_false_iff.2 hne
  have hsign : splitSign ((if x < 0 then '-' else '+') :: ds) = (decide (x < 0), ds) := by
    by_cases hx : x < 0 <;> simp [hx, splitSign]
  rw [htext, exponent?]
  simp only [hsign, htake, natOfDigits_dropWhile, hvalue, hall, hempty, decide_true, Bool.true_or,
    if_true, Bool.not_true, Bool.or_self, Bool.false_eq_true, if_false, decide_eq_true_eq]
  by_cases hx : x < 0
  · rw [if_pos hx]
    congr 1
    omega
  · rw [if_neg hx]
    congr 1
    omega

theorem isNumeral_exponentText (x : Int) : IsNumeral (exponentText x).toList := by
  obtain ⟨ds, hds, -, -, -, htext⟩ := exponentText_toList x
  have hchars : 'e' ∈ numeralChars ∧ '-' ∈ numeralChars ∧ '+' ∈ numeralChars := by decide
  rw [htext, isNumeral_cons, isNumeral_cons]
  refine ⟨hchars.1, ?_, hds.isNumeral⟩
  split
  · exact hchars.2.1
  · exact hchars.2.2

/-! ## Numerals -/

section Numerals

variable {whole fraction tail : List Char} {e : Int} (negative : Bool) (hwhole : IsDigits whole)
  (hne : whole ≠ []) (hfraction : IsDigits fraction) (htail : exponent? tail = some e)
  (hnumeral : IsNumeral tail)

include htail in
/-- What follows the digits begins with no digit and no point. -/
theorem exponent?_head : ∀ c rest, tail = c :: rest → isDigit c = false ∧ c ≠ '.' := by
  rintro c rest rfl
  rw [exponent?] at htail
  split at htail
  · next hc =>
    simp only [Bool.or_eq_true, decide_eq_true_eq] at hc
    rcases hc with rfl | rfl <;> decide
  · simp at htail

include htail in
theorem takeWhile_digits {ds : List Char} (hds : IsDigits ds) :
    (ds ++ tail).takeWhile isDigit = ds ∧ (ds ++ tail).dropWhile isDigit = tail := by
  rw [List.takeWhile_append_of_pos hds, List.dropWhile_append_of_pos hds]
  cases tail with
  | nil => simp
  | cons c rest =>
    have hc := (exponent?_head htail c rest rfl).1
    simp [hc]

include hwhole hne in
/-- A text that begins with a digit is none of the words that stand for floats. -/
theorem lower_ne_word (rest : List Char) : lower (whole ++ rest) ≠ "nan".toList ∧
    lower (whole ++ rest) ≠ "inf".toList ∧ lower (whole ++ rest) ≠ "infinity".toList := by
  cases whole with
  | nil => exact absurd rfl hne
  | cons c whole =>
    obtain ⟨-, -, -, hlower, hn, hi⟩ := digit_clean (hwhole c (by simp))
    simp [lower, hlower, hn, hi]

include hwhole hne in
/-- A sign and a text that begins with a digit are cleaned to themselves and parted again. -/
theorem clean_signed {rest : List Char} (hrest : IsNumeral rest) :
    dropUnderscores? (trimBlanks (normalizeDigits (signChars negative ++ (whole ++ rest)))) =
        some (signChars negative ++ (whole ++ rest)) ∧
      splitSign (signChars negative ++ (whole ++ rest)) = (negative, whole ++ rest) := by
  have htext : IsNumeral (signChars negative ++ (whole ++ rest)) :=
    isNumeral_append.2 ⟨isNumeral_signChars negative, isNumeral_append.2 ⟨hwhole.isNumeral, hrest⟩⟩
  rw [normalizeDigits_of_isNumeral htext, trimBlanks_of_isNumeral htext,
    dropUnderscores?_of_isNumeral htext]
  exact ⟨rfl, splitSign_signChars negative hwhole hne⟩

include hwhole hne hfraction htail hnumeral

/-- A numeral with a point. -/
theorem float?_pointed :
    float? (signChars negative ++ (whole ++ '.' :: (fraction ++ tail))) =
      some (scale negative (natOfDigits (whole ++ fraction)) (e - fraction.length)) := by
  have hpoint : '.' ∈ numeralChars ∧ isDigit '.' = false := by decide
  have hrest : IsNumeral ('.' :: (fraction ++ tail)) :=
    isNumeral_cons.2 ⟨hpoint.1, isNumeral_append.2 ⟨hfraction.isNumeral, hnumeral⟩⟩
  obtain ⟨hclean, hsign⟩ := clean_signed negative hwhole hne hrest
  obtain ⟨hnan, hinf, hinfinity⟩ := lower_ne_word hwhole hne ('.' :: (fraction ++ tail))
  have hwholes : (whole ++ '.' :: (fraction ++ tail)).takeWhile isDigit = whole := by
    rw [List.takeWhile_append_of_pos hwhole, List.takeWhile_cons_of_neg (by simp [hpoint.2]),
      List.append_nil]
  have hafter : (whole ++ '.' :: (fraction ++ tail)).dropWhile isDigit =
      '.' :: (fraction ++ tail) := by
    rw [List.dropWhile_append_of_pos hwhole, List.dropWhile_cons_of_neg (by simp [hpoint.2])]
  obtain ⟨htake, hdrop⟩ := takeWhile_digits htail hfraction
  have hnonempty : whole.isEmpty = false := List.isEmpty_eq_false_iff.2 hne
  rw [float?, hclean]
  dsimp only
  rw [hsign]
  simp only [hnan, hinf, hinfinity, or_self, if_false, hwholes, hafter, htake, hdrop, hnonempty,
    Bool.false_and, Bool.false_eq_true, htail, Option.map_some]

omit hfraction in
/-- A numeral without a point. -/
theorem float?_whole :
    float? (signChars negative ++ (whole ++ tail)) =
      some (scale negative (natOfDigits whole) e) := by
  obtain ⟨hclean, hsign⟩ := clean_signed negative hwhole hne hnumeral
  obtain ⟨hnan, hinf, hinfinity⟩ := lower_ne_word hwhole hne tail
  obtain ⟨htake, hdrop⟩ := takeWhile_digits htail hwhole
  have hnonempty : whole.isEmpty = false := List.isEmpty_eq_false_iff.2 hne
  rw [float?, hclean]
  dsimp only
  rw [hsign]
  simp only [hnan, hinf, hinfinity, or_self, if_false, htake, hdrop]
  split
  · next more => exact absurd rfl (exponent?_head htail '.' more rfl).2
  · simp only [hnonempty, Bool.false_and, Bool.false_eq_true, if_false, htail, Option.map_some,
      List.append_nil, List.length_nil, Nat.cast_zero, Int.sub_zero]

end Numerals

/-! ## Rounding -/

/-- A positive decimal lies between the powers of ten that its digits and its exponent tell. -/
theorem value_bounds {d : Decimal} (h : d.digits ≠ 0) :
    (10 : ℚ) ^ ((Nat.repr d.digits).length + d.exponent - 1) ≤ d.value ∧
      d.value < 10 ^ ((Nat.repr d.digits).length + d.exponent) := by
  have hten : (10 : ℚ) ≠ 0 := by norm_num
  have hpos : (0 : ℚ) < 10 ^ d.exponent := by positivity
  have hlength := Nat.length_repr_pos (n := d.digits)
  have hupper : d.digits < 10 ^ (Nat.repr d.digits).length :=
    (Nat.length_repr_le_iff hlength).1 le_rfl
  have hlower : 10 ^ ((Nat.repr d.digits).length - 1) ≤ d.digits := by
    by_cases hone : (Nat.repr d.digits).length = 1
    · rw [hone]
      exact Nat.one_le_iff_ne_zero.2 h
    · refine Nat.le_of_not_lt fun hlt => ?_
      have := (Nat.length_repr_le_iff (by omega)).2 hlt
      omega
  generalize (Nat.repr d.digits).length = n at *
  rw [value]
  constructor
  · have hsplit : (10 : ℚ) ^ ((n : Int) + d.exponent - 1) =
        (10 ^ (n - 1) : Nat) * 10 ^ d.exponent := by
      rw [Nat.cast_pow, Nat.cast_ofNat, ← zpow_natCast, ← zpow_add₀ hten]
      congr 1
      omega
    rw [hsplit]
    exact mul_le_mul_of_nonneg_right (Nat.cast_le.2 hlower) hpos.le
  · have hsplit : (10 : ℚ) ^ ((n : Int) + d.exponent) = (10 ^ n : Nat) * 10 ^ d.exponent := by
      rw [Nat.cast_pow, Nat.cast_ofNat, ← zpow_natCast, ← zpow_add₀ hten]
    rw [hsplit]
    exact mul_lt_mul_of_pos_right (Nat.cast_lt.2 hupper) hpos

/-- Every float lies between these powers of ten. -/
theorem range_gaps : (10 : ℚ) ^ (-401 : Int) < 1 / 2 * 2 ^ (-1074 : Int) ∧
    (2 : ℚ) ^ (1024 : Int) < 10 ^ (400 : Int) := by
  have hleast : (2 : Nat) ^ 1075 < 10 ^ 401 := by decide +kernel
  have hgreatest : (2 : Nat) ^ 1024 < 10 ^ 400 := by decide +kernel
  constructor
  · have hhalf : (1 / 2 : ℚ) * 2 ^ (-1074 : Int) = 2 ^ (-1075 : Int) := by
      rw [show (-1075 : Int) = -1 + -1074 by rfl, zpow_add₀ two_ne_zero, zpow_neg_one, one_div]
    rw [hhalf, zpow_neg, zpow_neg, inv_lt_inv₀ (by positivity) (by positivity)]
    exact_mod_cast hleast
  · exact_mod_cast hgreatest

/-- A decimal that rounds to a positive float has its first digit where floats have theirs. -/
theorem top_bounds {m : Nat} {q : Int} {d : Decimal} (hfinite : IsFinite m q) (hm : 0 < m)
    (h : Surrounds m q d.value) (hd : d.digits ≠ 0) :
    -400 ≤ (Nat.repr d.digits).length + d.exponent ∧
      (Nat.repr d.digits).length + d.exponent ≤ 400 := by
  obtain ⟨hlower, hupper⟩ := value_bounds hd
  generalize ((Nat.repr d.digits).length : Int) + d.exponent = top at *
  have hslack := slack_le m q
  have hm' : (1 : ℚ) ≤ m := by exact_mod_cast hm
  have hleast := hfinite.least
  have hgreatest := hfinite.greatest
  constructor
  · by_contra hc
    have hsmall : (10 : ℚ) ^ top ≤ 10 ^ (-401 : Int) :=
      zpow_le_zpow_right₀ (by norm_num) (by omega)
    have hunit : (2 : ℚ) ^ (-1074 : Int) ≤ 2 ^ q := zpow_le_zpow_right₀ (by norm_num) hleast
    have hhalf : (1 / 2 : ℚ) * 2 ^ (-1074 : Int) ≤ d.value :=
      calc (1 / 2 : ℚ) * 2 ^ (-1074 : Int) ≤ (m - slack m q) * 2 ^ q :=
            mul_le_mul (by linarith) hunit (by positivity) (by linarith)
        _ ≤ d.value := h.lower
    exact absurd (hhalf.trans_lt (hupper.trans_le hsmall)) range_gaps.1.not_gt
  · by_contra hc
    have hlarge : (10 : ℚ) ^ (400 : Int) ≤ 10 ^ (top - 1) :=
      zpow_le_zpow_right₀ (by norm_num) (by omega)
    have hlt : d.value < 2 ^ (1024 : Int) :=
      (h.lt hfinite.lt).trans_le (zpow_le_zpow_right₀ (by norm_num) (by omega))
    exact absurd ((hlarge.trans hlower).trans_lt hlt) range_gaps.2.not_gt

theorem digits_ne_zero {m : Nat} {q : Int} {d : Decimal} (hm : 0 < m)
    (h : Surrounds m q d.value) : d.digits ≠ 0 := by
  intro hzero
  have hpos := h.pos hm
  rw [value, hzero, Nat.cast_zero, zero_mul] at hpos
  exact lt_irrefl _ hpos

/-- A decimal in the rounding interval of a positive float is read as that float. -/
theorem scale_of_surrounds {m : Nat} {q : Int} {d : Decimal} (hfinite : IsFinite m q) (hm : 0 < m)
    (h : Surrounds m q d.value) (negative : Bool) :
    scale negative d.digits d.exponent = ofSignBits negative (magnitude m q) := by
  have hd := digits_ne_zero hm h
  obtain ⟨hleast, hgreatest⟩ := top_bounds hfinite hm h hd
  have hsplit := zpow_split (show (10 : ℚ) ≠ 0 by norm_num) d.exponent
  have hx : d.value * (tenPow (-d.exponent).toNat : Nat) =
      (d.digits * tenPow d.exponent.toNat : Nat) := by
    rw [value, tenPow_eq, tenPow_eq]
    push_cast
    rw [hsplit]
    ring
  rw [scale]
  simp only [hd, if_false, not_lt.2 hgreatest, not_lt.2 hleast]
  exact ofRatio_of_surrounds hfinite hm (Nat.pow_pos (by decide)) hx h negative

end PlateModel.Decimal
