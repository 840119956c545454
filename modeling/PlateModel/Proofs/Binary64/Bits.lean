import Mathlib
import PlateModel.Binary64

/-!
# Bit patterns of floats

A float is its bit pattern, so one whose sign, significand and exponent are known is known. The bits
below the sign of a finite float are `(q + 1074) * 2 ^ 52 + m` for its significand `m` and exponent
`q`, also where the significand has no leading one.

* `IsFinite`: the significands and exponents of finite floats; `magnitude`: their bits.
* `eq_of_parts_finite`, `eq_of_parts_infinite`, `isNaN_of_parts`: what the parts of a float say.
* `parts_neg`, `neg_neg_of_parts`: the negation of a finite float differs in its sign only.
-/

namespace PlateModel.Binary64

open Float.Model (Format)
open Float.Model.UnpackedFloat

/-! ## Fields of a bit pattern -/

theorem toNat_exponent (b : BitVec 64) :
    (@unpackExponent Format.binary64 b).toNat = b.toNat / twoPow 52 % 2048 := by
  simp [unpackExponent, Nat.shiftRight_eq_div_pow, twoPow]

theorem toNat_mantissa (b : BitVec 64) :
    (@unpackMantissa Format.binary64 b).toNat = b.toNat % twoPow 52 := by
  simp [unpackMantissa, twoPow]

/-! ## Parts -/

/-- The significands and exponents of finite floats: a significand without a leading one has the
least exponent. -/
structure IsFinite (m : Nat) (q : Int) : Prop where
  lt : m < 2 ^ 53
  least : -1074 ≤ q
  greatest : q ≤ 971
  leading : -1074 < q → 2 ^ 52 ≤ m

/-- The bits of a finite float below the sign. -/
def magnitude (m : Nat) (q : Int) : Nat := (q + 1074).toNat * 2 ^ 52 + m

theorem twoPow_52 : twoPow 52 = 4503599627370496 := rfl

theorem twoPow_63 : twoPow 63 = 9223372036854775808 := rfl

/-- A float is made of its sign, its exponent and its fraction. -/
theorem eq_ofSignBits (x : Float) :
    x = ofSignBits (x.toBits.toNat / twoPow 63 == 1)
      (x.toBits.toNat / twoPow 52 % 2048 * twoPow 52 + x.toBits.toNat % twoPow 52) := by
  have hlt := x.toBits.toNat_lt
  have hbits : x.toBits.toNat =
      if x.toBits.toNat / twoPow 63 == 1 then
        x.toBits.toNat / twoPow 52 % 2048 * twoPow 52 + x.toBits.toNat % twoPow 52 + twoPow 63
      else x.toBits.toNat / twoPow 52 % 2048 * twoPow 52 + x.toBits.toNat % twoPow 52 := by
    simp only [twoPow_52, twoPow_63, beq_iff_eq]
    split <;> omega
  rw [ofSignBits, ← hbits, UInt64.ofNat_toNat, Float.ofBits_toBits]

/-- The sign, significand and exponent of a finite float are its own. -/
theorem eq_of_parts_finite {x : Float} {negative : Bool} {m : Nat} {q : Int}
    (h : parts x = .finite negative m q) :
    IsFinite m q ∧ x = ofSignBits negative (magnitude m q) := by
  have hx := eq_ofSignBits x
  have hfraction : x.toBits.toNat % twoPow 52 < twoPow 52 := Nat.mod_lt _ (by decide)
  have hexponent : x.toBits.toNat / twoPow 52 % 2048 < 2048 := Nat.mod_lt _ (by decide)
  rw [parts] at h
  generalize x.toBits.toNat / twoPow 52 % 2048 = e at *
  generalize x.toBits.toNat % twoPow 52 = f at *
  rw [twoPow_52] at hx hfraction h
  split at h
  · split at h <;> cases h
  · split at h
    · cases h
      refine ⟨⟨by omega, by omega, by omega, by omega⟩, hx.trans (congrArg _ ?_)⟩
      rw [magnitude]
      omega
    · cases h
      refine ⟨⟨by omega, by omega, by omega, by omega⟩, hx.trans (congrArg _ ?_)⟩
      rw [magnitude]
      omega

/-- There is one infinity of each sign. -/
theorem eq_of_parts_infinite {x : Float} {negative : Bool} (h : parts x = .infinite negative) :
    x = if negative then negInfinity else infinity := by
  have hx := eq_ofSignBits x
  rw [parts] at h
  generalize x.toBits.toNat / twoPow 52 % 2048 = e at *
  generalize x.toBits.toNat % twoPow 52 = f at *
  split at h
  · next he =>
    split at h
    · next hf =>
      cases h
      rw [hx, he, hf]
      generalize (x.toBits.toNat / twoPow 63 == 1) = negative
      cases negative <;> rfl
    · cases h
  · split at h <;> cases h

/-- What has no parts is no number. -/
theorem isNaN_of_parts {x : Float} (h : parts x = .notANumber) : x.isNaN := by
  rw [parts] at h
  split at h
  · next he =>
    split at h
    · cases h
    · next hf =>
      have hexponent : @unpackExponent Format.binary64 x.toBits.toBitVec = -1#11 :=
        BitVec.eq_of_toNat_eq ((toNat_exponent _).trans he)
      have hmantissa : @unpackMantissa Format.binary64 x.toBits.toBitVec ≠ 0#52 :=
        fun h0 => hf ((toNat_mantissa _).symm.trans (congrArg BitVec.toNat h0))
      show (unpack Format.binary64 x.toBits.toBitVec).isNaN = true
      rw [unpack]
      dsimp only
      rw [if_pos hexponent, if_neg hmantissa]
      rfl
  · split at h <;> cases h

/-! ## Fields of a negation -/

theorem toNat_sign (b : BitVec 64) :
    (@unpackSign Format.binary64 b).toNat = b.toNat / twoPow 63 := by
  have hlt := b.isLt
  simp only [unpackSign, BitVec.toNat_cast, BitVec.extractLsb_toNat, Nat.shiftRight_eq_div_pow,
    twoPow_63]
  omega

theorem unpackSign_packComponents (s : Sign) (e : BitVec 11) (m : BitVec 52) :
    @unpackSign Format.binary64 (packComponents Format.binary64 s e m) = s.toBitVec := by
  ext i hi
  have hi0 : i = 0 := by omega
  subst hi0
  rw [unpackSign, packComponents]
  grind

/-- A negation has the exponent and the fraction of the float, unless that is infinite or no
number. -/
theorem pack_neg_unpack (b : BitVec Format.binary64.numBits) (h : unpackExponent b ≠ -1#_) :
    pack Format.binary64 (unpack Format.binary64 b).neg =
      packComponents Format.binary64 (-Sign.ofBitVec (unpackSign b)) (unpackExponent b)
        (unpackMantissa b) := by
  have hfraction : (unpackMantissa b).toNat < 2 ^ 52 := (unpackMantissa b).isLt
  have hexponent : (unpackExponent b).toNat < 2 ^ 11 := (unpackExponent b).isLt
  have hbias : (Format.binary64.exponentBias : Int) = 1023 := rfl
  have hwidth : (Format.binary64.mantissaBitsWithoutImplicit : Int) = 52 := rfl
  have hbits : Format.binary64.mantissaBits = 53 := rfl
  rw [unpack]
  dsimp only
  rw [if_neg h]
  split
  · next hzero =>
    split
    · next hempty =>
      rw [hzero, hempty]
      rfl
    · next hempty =>
      -- the exponent of a fraction without a leading one is stored as zero, but counts as one
      have hlog : ¬(unpackMantissa b).toNat.log2 + 1 = 53 := by
        have hpos : (unpackMantissa b).toNat ≠ 0 := fun h0 =>
          hempty (BitVec.eq_of_toNat_eq h0)
        have hlt := (Nat.log2_lt hpos).2 hfraction
        omega
      rw [hzero, neg, pack, hbias, hwidth, hbits]
      dsimp only [BitVec.toNat_ofNat]
      rw [if_neg (by decide), if_neg hlog, BitVec.ofNat_toNat, BitVec.setWidth_eq]
  · next hzero =>
    have hleast : (unpackExponent b).toNat ≠ 0 := fun h0 => hzero (BitVec.eq_of_toNat_eq h0)
    have hgreatest : (unpackExponent b).toNat ≠ 2047 := fun h0 => h (BitVec.eq_of_toNat_eq h0)
    have hleading : (1#1 ++ unpackMantissa b).toNat = 2 ^ 52 + (unpackMantissa b).toNat := by
      rw [BitVec.toNat_append, ← Nat.shiftLeft_add_eq_or_of_lt hfraction]
      rfl
    have hlog : (1#1 ++ unpackMantissa b).toNat.log2 + 1 = 53 := by
      have hne : (1#1 ++ unpackMantissa b).toNat ≠ 0 := by omega
      have hlower := (Nat.le_log2 hne).2 (hleading ▸ Nat.le_add_right (2 ^ 52) _)
      have hupper := (Nat.log2_lt hne (k := 53)).2 (by omega)
      omega
    have hstored : ((unpackExponent b).toNat - (1023 + 52) + 1023 + 52 : Int).toNat =
        (unpackExponent b).toNat := by
      omega
    rw [neg, pack, hbias, hwidth, hbits]
    dsimp only
    rw [hstored, if_neg (by simp only; omega), if_pos hlog, BitVec.ofNat_toNat, BitVec.setWidth_eq]
    refine congrArg _ (BitVec.eq_of_toNat_eq ?_)
    rw [BitVec.toNat_ofNat, hleading]
    change (2 ^ 52 + (unpackMantissa b).toNat) % 2 ^ 52 = (unpackMantissa b).toNat
    omega

/-- The sign, the exponent and the fraction that a bit pattern was made of. -/
theorem fields_packComponents (s : Sign) (e : BitVec 11) (m : BitVec 52) {b : BitVec 64}
    (h : packComponents Format.binary64 s e m = b) : b.toNat / twoPow 63 = s.toBitVec.toNat ∧
      b.toNat / twoPow 52 % 2048 = e.toNat ∧ b.toNat % twoPow 52 = m.toNat := by
  subst h
  refine ⟨?_, ?_, ?_⟩
  · rw [← toNat_sign, unpackSign_packComponents]
  · rw [← toNat_exponent, unpackExponent_packComponents]
  · rw [← toNat_mantissa, unpackMantissa_packComponents]

/-! ## Parts of a negation -/

theorem toBits_neg (x : Float) :
    pack Format.binary64 (unpack Format.binary64 x.toBits.toBitVec).neg = (-x).toBits.toBitVec :=
  rfl

/-- The negation of a finite float differs in its sign only. -/
theorem parts_neg {x : Float} {negative : Bool} {m : Nat} {q : Int}
    (h : parts x = .finite negative m q) : parts (-x) = .finite (!negative) m q := by
  have hflip : ∀ u : BitVec 1, ((-Sign.ofBitVec u).toBitVec.toNat == 1) = !(u.toNat == 1) := by
    decide
  have hexponent : x.toBits.toNat / twoPow 52 % 2048 ≠ 2047 := by
    intro he
    rw [parts, if_pos he] at h
    split at h <;> cases h
  have hpacked := pack_neg_unpack x.toBits.toBitVec fun he =>
    hexponent ((toNat_exponent _).symm.trans (congrArg BitVec.toNat he))
  rw [toBits_neg] at hpacked
  obtain ⟨hsign, hsame, hrest⟩ := fields_packComponents _ _ _ hpacked.symm
  rw [toNat_exponent, UInt64.toNat_toBitVec, UInt64.toNat_toBitVec] at hsame
  rw [toNat_mantissa, UInt64.toNat_toBitVec, UInt64.toNat_toBitVec] at hrest
  rw [UInt64.toNat_toBitVec] at hsign
  rw [parts] at h ⊢
  rw [hsign, hflip, toNat_sign, UInt64.toNat_toBitVec, hsame, hrest]
  rw [if_neg hexponent] at h ⊢
  split at h
  · next hzero =>
    cases h
    rw [if_pos hzero]
  · next hzero =>
    cases h
    rw [if_neg hzero]

/-- Negating a finite float twice changes nothing. -/
theorem neg_neg_of_parts {x : Float} {negative : Bool} {m : Nat} {q : Int}
    (h : parts x = .finite negative m q) : -(-x) = x := by
  have htwice := parts_neg (parts_neg h)
  rw [Bool.not_not] at htwice
  rw [(eq_of_parts_finite htwice).2, (eq_of_parts_finite h).2]

end PlateModel.Binary64
