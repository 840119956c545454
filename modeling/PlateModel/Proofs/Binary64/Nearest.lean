import Mathlib.Algebra.Order.Field.Power
import Mathlib.Data.Rat.Cast.Order
import Mathlib.Tactic.FieldSimp
import Mathlib.Tactic.Linarith
import Mathlib.Tactic.NormNum
import Mathlib.Tactic.Positivity
import Mathlib.Tactic.Ring
import PlateModel.Proofs.Binary64.Bits

/-!
# The float nearest to a quotient

Every number that lies between the midpoints to the two neighbours of a float is rounded to this
float, and so are the midpoints if its significand is even. Just below a power of two floats are
twice as close, so what is rounded to a power of two may have a smaller logarithm.

* `Surrounds`: the numbers around a float.
* `floorLog2_spec`, `roundQuotient_of_near`: the two steps of rounding.
* `ofRatio_of_surrounds`: a quotient around a float is rounded to it.
-/

namespace PlateModel.Binary64

theorem twoPow_eq (n : Nat) : twoPow n = 2 ^ n := rfl

/-- A power with an integer exponent, as a quotient of powers of which one is one. -/
theorem zpow_split {a : ℚ} (ha : a ≠ 0) (e : Int) : a ^ e.toNat = a ^ e * a ^ (-e).toNat := by
  rw [← zpow_natCast, ← zpow_natCast, ← zpow_add₀ ha]
  congr 1
  omega

/-! ## Quotients rounded to naturals -/

/-- What is closer than one half to a natural is rounded to it, and what is as far as that too if
the natural is even. -/
theorem roundQuotient_eq {n d r : Nat} (hd : 0 < d) (hlower : 2 * (d * r) ≤ 2 * n + d)
    (hupper : 2 * n ≤ 2 * (d * r) + d)
    (hodd : r % 2 = 1 → 2 * (d * r) < 2 * n + d ∧ 2 * n < 2 * (d * r) + d) :
    roundQuotient n d = r := by
  have hn := Nat.div_add_mod n d
  have hmod := Nat.mod_lt n hd
  rw [roundQuotient]
  generalize n / d = q at *
  generalize n % d = rem at *
  -- the quotient is rounded to its floor or to the next natural, so others are too far away
  obtain h | rfl | rfl | h : q + 2 ≤ r ∨ r = q + 1 ∨ r = q ∨ r + 1 ≤ q := by omega
  · have := Nat.mul_le_mul_left d h
    rw [Nat.mul_add] at this
    omega
  · rw [Nat.mul_add, Nat.mul_one] at *
    split
    · omega
    · split
      · rfl
      · rw [if_neg (by omega)]
  · split
    · rfl
    · split
      · omega
      · rw [if_pos (by omega)]
  · have := Nat.mul_le_mul_left d h
    rw [Nat.mul_add] at this
    omega

/-- What a quotient is rounded to differs from it by one half at most. -/
theorem roundQuotient_bounds {n d : Nat} (hd : 0 < d) {x : ℚ} (hx : x * d = n) :
    (roundQuotient n d : ℚ) - 1 / 2 ≤ x ∧ x ≤ roundQuotient n d + 1 / 2 := by
  have hd' : (0 : ℚ) < d := Nat.cast_pos.2 hd
  have hn := Nat.div_add_mod n d
  have hmod := Nat.mod_lt n hd
  have hbounds : 2 * (d * roundQuotient n d) ≤ 2 * n + d ∧
      2 * n ≤ 2 * (d * roundQuotient n d) + d := by
    rw [roundQuotient]
    split
    · omega
    · split
      · rw [Nat.mul_add, Nat.mul_one]
        omega
      · split
        · omega
        · rw [Nat.mul_add, Nat.mul_one]
          omega
  obtain ⟨hlower, hupper⟩ := hbounds
  have hlower' : (2 : ℚ) * (d * roundQuotient n d) ≤ 2 * n + d := by exact_mod_cast hlower
  have hupper' : (2 : ℚ) * n ≤ 2 * (d * roundQuotient n d) + d := by exact_mod_cast hupper
  rw [← hx] at hlower' hupper'
  refine ⟨le_of_mul_le_mul_right ?_ hd', le_of_mul_le_mul_right ?_ hd'⟩ <;> linarith

/-- What is closer to a natural than one half is rounded to it, as a rational number. -/
theorem roundQuotient_of_near {n d r : Nat} (hd : 0 < d) {x : ℚ} (hx : x * d = n)
    (hlower : (r : ℚ) - 1 / 2 ≤ x) (hupper : x ≤ r + 1 / 2)
    (hodd : r % 2 = 1 → (r : ℚ) - 1 / 2 < x ∧ x < r + 1 / 2) : roundQuotient n d = r := by
  have hd' : (0 : ℚ) < d := Nat.cast_pos.2 hd
  refine roundQuotient_eq hd ?_ ?_ fun h => ⟨?_, ?_⟩
  · have := mul_le_mul_of_nonneg_right hlower hd'.le
    exact_mod_cast (by linarith : (2 : ℚ) * (d * r) ≤ 2 * n + d)
  · have := mul_le_mul_of_nonneg_right hupper hd'.le
    exact_mod_cast (by linarith : (2 : ℚ) * n ≤ 2 * (d * r) + d)
  · have := mul_lt_mul_of_pos_right (hodd h).1 hd'
    exact_mod_cast (by linarith : (2 : ℚ) * (d * r) < 2 * n + d)
  · have := mul_lt_mul_of_pos_right (hodd h).2 hd'
    exact_mod_cast (by linarith : (2 : ℚ) * n < 2 * (d * r) + d)

/-! ## Binary logarithms of quotients -/

/-- A comparison of naturals that says on which side of a power of two a quotient lies. -/
theorem reaches_iff (n d : Nat) (k : Int) :
    d * twoPow k.toNat ≤ n * twoPow (-k).toNat ↔ (2 : ℚ) ^ k * d ≤ n := by
  have hsplit := zpow_split (two_ne_zero (α := ℚ)) k
  have hpos : (0 : ℚ) < 2 ^ (-k).toNat := by positivity
  rw [← Nat.cast_le (α := ℚ), twoPow_eq, twoPow_eq]
  push_cast
  rw [hsplit, ← mul_assoc, mul_comm (d : ℚ)]
  exact mul_le_mul_iff_left₀ hpos

/-- The floor of the binary logarithm of a quotient. -/
theorem floorLog2_spec {n d : Nat} (hn : 0 < n) (hd : 0 < d) :
    (2 : ℚ) ^ floorLog2 n d * d ≤ n ∧ (n : ℚ) < 2 ^ (floorLog2 n d + 1) * d := by
  obtain ⟨hn₁, hn₂⟩ := (Nat.log2_eq_iff hn.ne').1 rfl
  obtain ⟨hd₁, hd₂⟩ := (Nat.log2_eq_iff hd.ne').1 rfl
  rw [floorLog2]
  generalize n.log2 = a at *
  generalize d.log2 = b at *
  have hn₁ : (2 : ℚ) ^ (a : Int) ≤ n := by rw [zpow_natCast]; exact_mod_cast hn₁
  have hn₂ : (n : ℚ) < 2 ^ (a + 1 : Int) := by
    rw [← Nat.cast_succ, zpow_natCast]; exact_mod_cast hn₂
  have hd₁ : (2 : ℚ) ^ (b : Int) ≤ d := by rw [zpow_natCast]; exact_mod_cast hd₁
  have hd₂ : (d : ℚ) < 2 ^ (b + 1 : Int) := by
    rw [← Nat.cast_succ, zpow_natCast]; exact_mod_cast hd₂
  have hadd (i j : Int) : (2 : ℚ) ^ i * 2 ^ j = 2 ^ (i + j) := (zpow_add₀ two_ne_zero i j).symm
  split
  · next h =>
    refine ⟨(reaches_iff n d _).1 h, ?_⟩
    calc (n : ℚ) < 2 ^ (a + 1 : Int) := hn₂
      _ = 2 ^ ((a : Int) - b + 1) * 2 ^ (b : Int) := by rw [hadd]; congr 1; ring
      _ ≤ 2 ^ ((a : Int) - b + 1) * d := mul_le_mul_of_nonneg_left hd₁ (by positivity)
  · next h =>
    refine ⟨?_, ?_⟩
    · calc (2 : ℚ) ^ ((a : Int) - b - 1) * d
          ≤ 2 ^ ((a : Int) - b - 1) * 2 ^ (b + 1 : Int) :=
            mul_le_mul_of_nonneg_left hd₂.le (by positivity)
        _ = 2 ^ (a : Int) := by rw [hadd]; congr 1; ring
        _ ≤ n := hn₁
    · rw [sub_add_cancel]
      exact not_le.1 (mt (reaches_iff n d _).2 h)

section Logarithm

variable {n d : Nat} {x : ℚ} {k : Int}

theorem le_floorLog2 (hn : 0 < n) (hd : 0 < d) (hx : x * d = n) (hk : 2 ^ k ≤ x) :
    k ≤ floorLog2 n d := by
  have hd' : (0 : ℚ) < d := Nat.cast_pos.2 hd
  have hupper := (floorLog2_spec hn hd).2
  rw [← hx] at hupper
  have hlt := hk.trans_lt (lt_of_mul_lt_mul_right hupper hd'.le)
  have := (zpow_lt_zpow_iff_right₀ one_lt_two).1 hlt
  omega

theorem floorLog2_lt (hn : 0 < n) (hd : 0 < d) (hx : x * d = n) (hk : x < 2 ^ k) :
    floorLog2 n d < k := by
  have hd' : (0 : ℚ) < d := Nat.cast_pos.2 hd
  have hlower := (floorLog2_spec hn hd).1
  rw [← hx] at hlower
  exact (zpow_lt_zpow_iff_right₀ one_lt_two).1 ((le_of_mul_le_mul_right hlower hd').trans_lt hk)

end Logarithm

/-! ## Numbers around a float -/

/-- How far a number may lie below a float to be rounded to it, in units of the last place. -/
def slack (m : Nat) (q : Int) : ℚ := if m = 2 ^ 52 ∧ -1074 < q then 1 / 4 else 1 / 2

/-- A number lies between the midpoints to the two neighbours of a float; an even significand owns
both midpoints. -/
structure Surrounds (m : Nat) (q : Int) (x : ℚ) : Prop where
  lower : (m - slack m q) * 2 ^ q ≤ x
  upper : x ≤ (m + 1 / 2) * 2 ^ q
  odd : m % 2 = 1 → (m - slack m q) * 2 ^ q < x ∧ x < (m + 1 / 2) * 2 ^ q

section Surrounds

variable {m : Nat} {q : Int} {x : ℚ}

theorem slack_le (m : Nat) (q : Int) : slack m q ≤ 1 / 2 := by
  unfold slack
  split <;> norm_num

theorem Surrounds.pos (h : Surrounds m q x) (hm : 0 < m) : 0 < x := by
  have hslack := slack_le m q
  have hm' : (1 : ℚ) ≤ m := by exact_mod_cast hm
  have : (0 : ℚ) < (m - slack m q) * 2 ^ q := mul_pos (by linarith) (by positivity)
  exact this.trans_le h.lower

/-- Numbers around a float lie below the next power of two. -/
theorem Surrounds.lt (h : Surrounds m q x) (hm : m < 2 ^ 53) : x < 2 ^ (q + 53) := by
  have hm' : (m : ℚ) + 1 ≤ 2 ^ 53 := by exact_mod_cast hm
  calc x ≤ (m + 1 / 2) * 2 ^ q := h.upper
    _ < 2 ^ 53 * 2 ^ q := mul_lt_mul_of_pos_right (by linarith) (by positivity)
    _ = 2 ^ (q + 53) := by rw [zpow_add₀ two_ne_zero, mul_comm]; norm_cast

/-- Only numbers around a power of two may lie below the power of two that their float is above. -/
theorem Surrounds.le (h : Surrounds m q x) (hm : 2 ^ 52 < m) : 2 ^ (q + 52) ≤ x := by
  have hm' : (2 : ℚ) ^ 52 + 1 ≤ m := by exact_mod_cast hm
  have hslack := slack_le m q
  calc (2 : ℚ) ^ (q + 52) = 2 ^ 52 * 2 ^ q := by
        rw [zpow_add₀ two_ne_zero, mul_comm]; norm_cast
    _ ≤ (m - slack m q) * 2 ^ q := mul_le_mul_of_nonneg_right (by linarith) (by positivity)
    _ ≤ x := h.lower

/-- The quotient in units of the last place of a float. -/
theorem scaled_eq {n d : Nat} (hx : x * d = n) (e : Int) :
    x / 2 ^ e * ((d * twoPow e.toNat : Nat) : ℚ) = (n * twoPow (-e).toNat : Nat) := by
  have hsplit := zpow_split (two_ne_zero (α := ℚ)) e
  have hpos : (0 : ℚ) < 2 ^ e := by positivity
  rw [twoPow_eq, twoPow_eq]
  push_cast
  rw [hsplit, ← hx]
  field_simp

section Rounding

variable {n d : Nat} (hfinite : IsFinite m q) (hm : 0 < m) (hd : 0 < d) (hx : x * d = n)
  (h : Surrounds m q x)

include hd hx h

/-- In its own units a number around a float is rounded to its significand. -/
theorem Surrounds.roundQuotient_eq :
    roundQuotient (n * twoPow (-q).toNat) (d * twoPow q.toNat) = m := by
  have hpos : (0 : ℚ) < 2 ^ q := by positivity
  have hslack := slack_le m q
  refine roundQuotient_of_near (Nat.mul_pos hd (Nat.two_pow_pos _)) (scaled_eq hx q) ?_ ?_
    fun hodd => ⟨?_, ?_⟩
  · rw [le_div_iff₀ hpos]
    exact (mul_le_mul_of_nonneg_right (by linarith) hpos.le).trans h.lower
  · rw [div_le_iff₀ hpos]
    exact h.upper
  · rw [lt_div_iff₀ hpos]
    exact (mul_le_mul_of_nonneg_right (by linarith) hpos.le).trans_lt (h.odd hodd).1
  · rw [div_lt_iff₀ hpos]
    exact (h.odd hodd).2

/-- In half as large units a number just below a power of two is rounded to this. -/
theorem Surrounds.roundQuotient_below (hm' : m = 2 ^ 52) (hq : -1074 < q)
    (hbelow : x < 2 ^ (q + 52)) :
    roundQuotient (n * twoPow (-(q - 1)).toNat) (d * twoPow (q - 1).toNat) = 2 ^ 53 := by
  have hpos : (0 : ℚ) < 2 ^ (q - 1) := by positivity
  have hdouble : (2 : ℚ) ^ q = 2 * 2 ^ (q - 1) := by
    rw [← zpow_one_add₀ two_ne_zero]
    congr 1
    ring
  have hlower := h.lower
  rw [slack, if_pos ⟨hm', hq⟩, hm', hdouble] at hlower
  rw [zpow_add₀ two_ne_zero, hdouble] at hbelow
  refine roundQuotient_of_near (Nat.mul_pos hd (Nat.two_pow_pos _)) (scaled_eq hx (q - 1)) ?_ ?_
    fun hodd => ?_
  · rw [le_div_iff₀ hpos]
    push_cast at hlower ⊢
    linarith
  · rw [div_le_iff₀ hpos]
    push_cast
    have : (2 : ℚ) ^ (52 : Int) = 2 ^ 52 := by norm_cast
    rw [this] at hbelow
    linarith
  · norm_num at hodd

include hm

theorem Surrounds.numerator_pos : 0 < n := by
  have : (0 : ℚ) < n := hx ▸ mul_pos (h.pos hm) (Nat.cast_pos.2 hd)
  exact_mod_cast this

include hfinite

/-- A quotient around a float is rounded in its units, unless it lies below a power of two. -/
theorem Surrounds.exponent : max (floorLog2 n d - 52) (-1074) = q ∨
    (m = 2 ^ 52 ∧ -1074 < q ∧ x < 2 ^ (q + 52) ∧ max (floorLog2 n d - 52) (-1074) = q - 1) := by
  have hn := h.numerator_pos hm hd hx
  have hlt := floorLog2_lt hn hd hx (h.lt hfinite.lt)
  have hleast := hfinite.least
  by_cases hq : q = -1074
  · left
    omega
  · by_cases hbelow : x < 2 ^ (q + 52)
    · right
      -- of the significands with a leading one only the least is met from below
      have hm' : m = 2 ^ 52 := by
        have := hfinite.leading (by omega)
        have hle : ¬ 2 ^ 52 < m := fun hlt => absurd (h.le hlt) (not_le.2 hbelow)
        omega
      have hlower : (2 : ℚ) ^ (q + 51) ≤ x := by
        have hslack := slack_le m q
        have hm'' : (m : ℚ) = 2 ^ 52 := by exact_mod_cast hm'
        calc (2 : ℚ) ^ (q + 51) = 2 ^ 51 * 2 ^ q := by
              rw [zpow_add₀ two_ne_zero, mul_comm]; norm_cast
          _ ≤ (m - slack m q) * 2 ^ q :=
              mul_le_mul_of_nonneg_right (by linarith) (by positivity)
          _ ≤ x := h.lower
      have hle := le_floorLog2 hn hd hx hlower
      have hlt' := floorLog2_lt hn hd hx hbelow
      exact ⟨hm', by omega, hbelow, by omega⟩
    · left
      have hle := le_floorLog2 hn hd hx (not_lt.1 hbelow)
      omega

/-- A quotient around a float is rounded to it. -/
theorem ofRatio_of_surrounds (negative : Bool) :
    ofRatio negative n d = ofSignBits negative (magnitude m q) := by
  have hlt := hfinite.lt
  have hgreatest := hfinite.greatest
  have hleast := hfinite.least
  rw [ofRatio, if_neg (h.numerator_pos hm hd hx).ne']
  dsimp only
  rcases h.exponent hfinite hm hd hx with he | ⟨hm', hq, hbelow, he⟩
  · rw [he, h.roundQuotient_eq hd hx, twoPow_52]
    congr 1
    rw [magnitude]
    split
    · have hleading : ¬ -1074 < q := fun hq => absurd (hfinite.leading hq) (by omega)
      omega
    · omega
  · -- the significand is rounded up to `2 ^ 53`, and the carry goes into the exponent
    have hbits : min ((q - 1 + 1074).toNat * 4503599627370496 + 2 ^ 53)
        (2047 * 4503599627370496) = (q + 1074).toNat * 2 ^ 52 + 2 ^ 52 := by omega
    rw [he, h.roundQuotient_below hd hx hm' hq hbelow, twoPow_52, if_neg (by norm_num), magnitude,
      hm', hbits]

end Rounding

end Surrounds

end PlateModel.Binary64
