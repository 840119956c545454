import PlateModel.Decimal.Basic
import PlateModel.Proofs.Binary64.Nearest

/-!
# Shortest numerals read back

The search for a numeral stops at one that lies around the float, or after seventeen digits. With
that many the nearest numeral always lies around the float: its error is at most half a unit of the
last digit, and this is less than `2 ^ -54` of the float.

* `Decimal.value`: the number that a decimal stands for.
* `surrounds_shortest`: the shortest numeral of a float is rounded to this float.
-/

namespace PlateModel

open Binary64

namespace Decimal

/-- The number that a decimal stands for. -/
def value (d : Decimal) : ℚ := d.digits * 10 ^ d.exponent

theorem tenPow_eq (n : Nat) : tenPow n = 10 ^ n := rfl

/-- Numerator and denominator of a scaled number. -/
theorem scaled_spec (m : Nat) (q k : Int) :
    0 < (scaled m q k).2 ∧ (m : ℚ) * 2 ^ q / 10 ^ k * (scaled m q k).2 = (scaled m q k).1 := by
  have htwo := zpow_split (two_ne_zero (α := ℚ)) q
  have hten := zpow_split (show (10 : ℚ) ≠ 0 by norm_num) k
  have hpos : (0 : ℚ) < 10 ^ k := by positivity
  refine ⟨Nat.mul_pos (Nat.two_pow_pos _) (Nat.pow_pos (by decide)), ?_⟩
  simp only [scaled, twoPow_eq, tenPow_eq]
  push_cast
  rw [htwo, hten]
  field_simp

/-! ## Decimals that are rounded to a float -/

/-- The test for decimals that are rounded to a float. -/
theorem surrounds_of_roundsTo {m : Nat} {q : Int} {d : Decimal} (hm : 0 < m)
    (h : roundsTo m q d.digits d.exponent) : Surrounds m q d.value := by
  obtain ⟨hden, hx⟩ := scaled_spec d.digits 0 (-d.exponent)
  have hx : d.value * (scaled d.digits 0 (-d.exponent)).2 =
      (scaled d.digits 0 (-d.exponent)).1 := by
    rw [← hx, zpow_zero, mul_one, zpow_neg, div_inv_eq_mul, value]
  have hunit := scaled_eq hx (q - 2)
  rw [neg_sub] at hunit
  -- the test counts in quarters of the last place, in which all bounds are naturals
  have hquarter : (2 : ℚ) ^ q = 4 * 2 ^ (q - 2) := by
    rw [zpow_sub₀ two_ne_zero]
    norm_num
    ring
  have hpos : (0 : ℚ) < 2 ^ (q - 2) := by positivity
  have hbelow : ((4 * m - if m = twoPow 52 ∧ -1074 < q then 1 else 2 : Nat) : ℚ) =
      4 * (m - slack m q) := by
    rw [slack, twoPow_eq]
    split
    · rw [Nat.cast_sub (by omega)]
      push_cast
      ring
    · rw [Nat.cast_sub (by omega)]
      push_cast
      ring
  rw [roundsTo] at h
  dsimp only at h
  have hupos : 0 < (scaled d.digits 0 (-d.exponent)).2 * twoPow (q - 2).toNat :=
    Nat.mul_pos hden (Nat.two_pow_pos _)
  generalize (scaled d.digits 0 (-d.exponent)).2 * twoPow (q - 2).toNat = u at *
  generalize (scaled d.digits 0 (-d.exponent)).1 * twoPow (2 - q).toNat = v at *
  generalize (4 * m - if m = twoPow 52 ∧ -1074 < q then 1 else 2) = lower at *
  have hupos' : (0 : ℚ) < u := Nat.cast_pos.2 hupos
  have hv : d.value * u = v * 2 ^ (q - 2) := by
    rw [← hunit]
    field_simp
  have hlower : (m - slack m q) * 2 ^ q * u = (lower * u : Nat) * 2 ^ (q - 2) := by
    rw [Nat.cast_mul, hbelow, hquarter]
    ring
  have hupper : ((m : ℚ) + 1 / 2) * 2 ^ q * u = ((4 * m + 2) * u : Nat) * 2 ^ (q - 2) := by
    rw [hquarter]
    push_cast
    ring
  have hle {a b : Nat} : (a : ℚ) * 2 ^ (q - 2) ≤ b * 2 ^ (q - 2) ↔ a ≤ b := by
    rw [mul_le_mul_iff_left₀ hpos, Nat.cast_le]
  have hlt {a b : Nat} : (a : ℚ) * 2 ^ (q - 2) < b * 2 ^ (q - 2) ↔ a < b := by
    rw [mul_lt_mul_iff_left₀ hpos, Nat.cast_lt]
  have hbounds : lower * u ≤ v ∧ v ≤ (4 * m + 2) * u ∧
      (m % 2 = 1 → lower * u < v ∧ v < (4 * m + 2) * u) := by
    split at h
    · simp only [Bool.and_eq_true, decide_eq_true_iff] at h
      exact ⟨h.1, h.2, by omega⟩
    · simp only [Bool.and_eq_true, decide_eq_true_iff] at h
      exact ⟨h.1.le, h.2.le, fun _ => h⟩
  obtain ⟨h₁, h₂, h₃⟩ := hbounds
  refine ⟨le_of_mul_le_mul_right ?_ hupos', le_of_mul_le_mul_right ?_ hupos', fun hodd =>
    ⟨lt_of_mul_lt_mul_right ?_ hupos'.le, lt_of_mul_lt_mul_right ?_ hupos'.le⟩⟩
  · rw [hlower, hv, hle]
    exact h₁
  · rw [hupper, hv, hle]
    exact h₂
  · rw [hlower, hv, hlt]
    exact (h₃ hodd).1
  · rw [hupper, hv, hlt]
    exact (h₃ hodd).2

/-! ## The logarithm of a float -/

/-- Powers of ten and of two are compared by any close powers of the two. -/
theorem ten_zpow_le {a b : Nat} {k l : Int} (ha : a ≠ 0) (hkl : k * a ≤ l * b)
    (hpow : (10 : ℚ) ^ (l * b) ≤ 2 ^ (l * a)) : (10 : ℚ) ^ k ≤ 2 ^ l := by
  refine (pow_le_pow_iff_left₀ (by positivity) (by positivity) ha).1 ?_
  rw [← zpow_natCast, ← zpow_natCast, ← zpow_mul, ← zpow_mul]
  exact (zpow_le_zpow_right₀ (by norm_num) hkl).trans hpow

/-- The estimate of a decimal exponent from a binary one is not too large. -/
theorem estimate_le {l : Int} (hl : -1074 ≤ l) (hl' : l ≤ 1024) :
    (10 : ℚ) ^ (Int.fdiv (l * 30103) 100000 - 1) ≤ 2 ^ l := by
  have hdiv : Int.fdiv (l * 30103) 100000 = l * 30103 / 100000 :=
    Int.fdiv_eq_ediv_of_nonneg _ (by decide)
  have hk : Int.fdiv (l * 30103) 100000 * 100000 ≤ l * 30103 := by omega
  generalize Int.fdiv (l * 30103) 100000 = k at *
  rcases le_total 0 l with hsign | hsign
  · -- `10 ^ 59` is a little less than `2 ^ 196`
    refine ten_zpow_le (a := 196) (b := 59) (by decide) (by push_cast; omega) ?_
    rw [mul_comm, mul_comm l, zpow_mul, zpow_mul]
    exact zpow_le_zpow_left₀ hsign (by positivity) (by norm_num)
  · -- `10 ^ 28` is a little more than `2 ^ 93`
    refine ten_zpow_le (a := 93) (b := 28) (by decide) (by push_cast; omega) ?_
    obtain ⟨n, rfl⟩ := Int.exists_eq_neg_ofNat hsign
    have hbase : ((2 : ℚ) ^ 93) ^ n ≤ (10 ^ 28) ^ n :=
      pow_le_pow_left₀ (by positivity) (by norm_num) n
    rw [neg_mul, neg_mul, zpow_neg, zpow_neg, mul_comm, mul_comm (n : Int), zpow_mul, zpow_mul]
    exact inv_anti₀ (by positivity) (by exact_mod_cast hbase)

/-- A comparison of naturals that says whether a float reaches a power of ten. -/
theorem reaches_iff (m : Nat) (q k : Int) :
    tenPow k.toNat * twoPow (-q).toNat ≤ m * twoPow q.toNat * tenPow (-k).toNat ↔
      (10 : ℚ) ^ k ≤ m * 2 ^ q := by
  obtain ⟨hden, hx⟩ := scaled_spec m q k
  have hpos : (0 : ℚ) < (scaled m q k).2 := Nat.cast_pos.2 hden
  have hten : (0 : ℚ) < 10 ^ k := by positivity
  have hiff : (scaled m q k).2 ≤ (scaled m q k).1 ↔ (10 : ℚ) ^ k ≤ m * 2 ^ q := by
    rw [← Nat.cast_le (α := ℚ), ← hx, ← one_mul ((scaled m q k).2 : ℚ), ← mul_assoc, mul_one,
      mul_le_mul_iff_left₀ hpos, one_le_div hten]
  rw [← hiff, scaled, Nat.mul_comm (tenPow k.toNat)]

/-- The decimal exponent of the first digit of a float is not too large. -/
theorem firstExponent_le {m : Nat} {q : Int} (hfinite : IsFinite m q) (hm : 0 < m) :
    (10 : ℚ) ^ firstExponent m q ≤ m * 2 ^ q := by
  obtain ⟨hlog, -⟩ := (Nat.log2_eq_iff hm.ne').1 rfl
  have hlt : m.log2 < 53 := (Nat.log2_lt hm.ne').2 hfinite.lt
  have hleast := hfinite.least
  have hgreatest := hfinite.greatest
  rw [firstExponent]
  simp only [decide_eq_true_iff, reaches_iff]
  split
  · assumption
  · split
    · assumption
    · calc (10 : ℚ) ^ (Int.fdiv ((m.log2 + q) * 30103) 100000 - 1)
          ≤ 2 ^ ((m.log2 : Int) + q) := estimate_le (by omega) (by omega)
        _ = 2 ^ m.log2 * 2 ^ q := by rw [zpow_add₀ two_ne_zero, zpow_natCast]
        _ ≤ m * 2 ^ q := mul_le_mul_of_nonneg_right (by exact_mod_cast hlog) (by positivity)

/-! ## Seventeen digits -/

/-- Seventeen digits are enough. -/
theorem surrounds_nearest {m : Nat} {q : Int} (hfinite : IsFinite m q) (hm : 0 < m) :
    Surrounds m q (nearest m q 17).value := by
  have hfirst := firstExponent_le hfinite hm
  have hk : nearest m q 17 = ⟨roundQuotient (scaled m q (firstExponent m q - 16)).1
      (scaled m q (firstExponent m q - 16)).2, firstExponent m q - 16⟩ := rfl
  obtain ⟨hden, hx⟩ := scaled_spec m q (firstExponent m q - 16)
  obtain ⟨hlower, hupper⟩ := roundQuotient_bounds hden hx
  rw [hk, value]
  dsimp only
  have hunit : (10 : ℚ) ^ (firstExponent m q - 16) * 10 ^ 16 = 10 ^ firstExponent m q := by
    rw [zpow_sub₀ (by norm_num)]
    norm_cast
    field_simp
  generalize firstExponent m q - 16 = k at *
  generalize ((roundQuotient (scaled m q k).1 (scaled m q k).2 : Nat) : ℚ) = r at *
  have hten : (0 : ℚ) < 10 ^ k := by positivity
  have htwo : (0 : ℚ) < 2 ^ q := by positivity
  rw [le_div_iff₀ hten] at hlower
  rw [div_le_iff₀ hten] at hupper
  -- the error is at most half a unit of the last of seventeen digits
  have herror : 10 ^ k / 2 ≤ m / (2 * 10 ^ 16) * (2 : ℚ) ^ q := by
    rw [div_mul_eq_mul_div, le_div_iff₀ (by positivity)]
    linarith
  have hlt : (m : ℚ) / (2 * 10 ^ 16) < slack m q := by
    rw [slack]
    split
    · next h =>
      rw [h.1]
      norm_num
    · rw [div_lt_iff₀ (by positivity)]
      have : (m : ℚ) < 2 ^ 53 := by exact_mod_cast hfinite.lt
      linarith
  have hslack := slack_le m q
  have hbelow := mul_lt_mul_of_pos_right hlt htwo
  have habove := mul_le_mul_of_nonneg_right hslack htwo.le
  have hstrict : (m - slack m q) * 2 ^ q < r * 10 ^ k ∧ r * 10 ^ k < (m + 1 / 2) * 2 ^ q := by
    constructor <;> linarith
  exact ⟨hstrict.1.le, hstrict.2.le, fun _ => hstrict⟩

/-- The search ends at a decimal that is rounded to the float, or with all digits it may take. -/
theorem shortestFrom_spec (m : Nat) (q : Int) (n more : Nat) :
    roundsTo m q (shortestFrom m q n more).digits (shortestFrom m q n more).exponent ∨
      shortestFrom m q n more = nearest m q (n + more) := by
  fun_induction shortestFrom m q n more with
  | case1 n => exact .inr rfl
  | case2 n more d h => exact .inl h
  | case3 n more d h up h' => exact .inl h'
  | case4 n more d h up h' ih => rwa [Nat.add_assoc, Nat.add_comm 1 more] at ih

theorem surrounds_shortest {m : Nat} {q : Int} (hfinite : IsFinite m q) (hm : 0 < m) :
    Surrounds m q (shortest m q).value := by
  rcases shortestFrom_spec m q 1 16 with h | h
  · exact surrounds_of_roundsTo hm h
  · rw [shortest, h]
    exact surrounds_nearest hfinite hm

/-- Zeros at the end of the digits do not matter. -/
theorem value_trim (d : Decimal) : d.trim.value = d.value := by
  fun_induction trim d with
  | case1 d h ih =>
    have hdigits : (d.digits : ℚ) = (d.digits / 10 : Nat) * 10 := by
      exact_mod_cast (Nat.div_mul_cancel (Nat.dvd_of_mod_eq_zero h.2)).symm
    rw [ih, value, value, hdigits, zpow_add_one₀ (by norm_num)]
    ring
  | case2 => rfl

end Decimal

end PlateModel
