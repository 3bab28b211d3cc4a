import Mathlib
import Linewise.Decimal.Reading

/-!
# The range of doubles

Only bits whose exponent is the largest one stand for infinity (`Decimal.isInf_ofBits`), and the
whole numbers that fit in a word are far from it: reading one never gives infinity
(`Decimal.isInf_nearest`).
-/

namespace Linewise.Decimal

/-! ## Bits -/

section Bits

open Float.Model Float.Model.UnpackedFloat

/-- Only bits with the largest exponent unpack to infinity. -/
theorem isInf_unpack {b : BitVec Format.binary64.numBits} (h : unpackExponent b ≠ -1#_) :
    (unpack Format.binary64 b).isInf = false := by
  rw [UnpackedFloat.unpack]
  simp only [h, if_false]
  split
  · split <;> rfl
  · rfl

/-- A number with an exponent in range is packed with an exponent other than the largest one. -/
theorem unpackExponent_pack_finite {sign : Sign} {mantissa : Nat} {exponent : Int}
    {hpos : 0 < mantissa} (h : exponent + 1075 < 2047) :
    unpackExponent (pack Format.binary64 (.finite sign mantissa exponent hpos)) ≠ -1#_ := by
  have hbias : ((Format.binary64.exponentBias : Nat) : Int) = 1023 := rfl
  have hbiased : (exponent + 1023 + 52).toNat < 2047 := by omega
  rw [UnpackedFloat.pack]
  simp only [hbias]
  rw [if_neg (by simpa using by omega)]
  split
  · rw [unpackExponent_packComponents]
    intro heq
    have hnat := congrArg BitVec.toNat heq
    change (exponent + 1023 + 52).toNat % 2048 = 2047 at hnat
    omega
  · rw [unpackExponent_packComponents]
    decide

/-- Bits that are unpacked and packed again have the largest exponent only if they had it. -/
theorem unpackExponent_pack_unpack {b : BitVec Format.binary64.numBits}
    (h : unpackExponent b ≠ -1#_) :
    unpackExponent (pack Format.binary64 (unpack Format.binary64 b)) ≠ -1#_ := by
  have hbias : ((Format.binary64.exponentBias : Nat) : Int) = 1023 := rfl
  have hlt : (unpackExponent b).toNat < 2047 := by
    have hle := (unpackExponent b).isLt
    have hne : (unpackExponent b).toNat ≠ 2047 := fun heq =>
      h (BitVec.eq_of_toNat_eq heq)
    have hpow : 2 ^ Format.binary64.exponentBits = 2048 := rfl
    omega
  rw [UnpackedFloat.unpack]
  simp only [h, if_false, hbias]
  split
  next hzero =>
    split
    · rw [UnpackedFloat.pack, packedZero, unpackExponent_packComponents]
      decide
    · refine unpackExponent_pack_finite ?_
      rw [hzero]
      decide
  next => exact unpackExponent_pack_finite (by omega)

/-- Bits below those of infinity do not stand for it. -/
theorem isInf_ofBits {bits : UInt64} (h : bits.toNat < 0x7FF0000000000000) :
    (Float.ofBits bits).isInf = false := by
  have hexponent : @unpackExponent Format.binary64 bits.toBitVec ≠ -1#_ := by
    intro heq
    have hnat := congrArg BitVec.toNat heq
    have hmax : (-1#11).toNat = 2047 := by decide
    simp [unpackExponent, BitVec.extractLsb, BitVec.extractLsb'] at hnat
    omega
  exact isInf_unpack (unpackExponent_pack_unpack hexponent)

end Bits

/-! ## Whole numbers -/

/-- The exponent of a whole number is the place of its highest bit. -/
theorem binaryExponent_one {n : Nat} (h : n ≠ 0) : binaryExponent n 1 = n.log2 := by
  rw [binaryExponent]
  have hlog : (1 : Nat).log2 = 0 := by decide
  rw [hlog, if_pos]
  · simp
  · simpa using Nat.log2_self_le h

/-- A quotient by one is not rounded. -/
theorem roundDiv_one (n : Nat) : roundDiv n 1 = n := by
  simp [roundDiv, Nat.mod_one]

/-- The double of a positive whole number of a word is finite: its exponent is below thirty-two,
    and its mantissa fills at most fifty-three bits. -/
theorem isInf_ofRatio_one {n : Nat} (hn : n ≠ 0) (h : n < 2 ^ 32) :
    (ofRatio n 1).isInf = false := by
  have hlog : n.log2 < 32 := (Nat.log2_lt hn).2 h
  have hmantissa : n * Nat.pow 2 (52 - n.log2) < 2 ^ 53 := by
    calc n * 2 ^ (52 - n.log2) < 2 ^ (n.log2 + 1) * 2 ^ (52 - n.log2) :=
          Nat.mul_lt_mul_of_pos_right Nat.lt_log2_self (Nat.two_pow_pos _)
      _ = 2 ^ 53 := by rw [← Nat.pow_add]; congr 1; omega
  have hbits : (n.log2 + 1022) * 0x10000000000000 + n * Nat.pow 2 (52 - n.log2) <
      0x7FF0000000000000 := by
    omega
  have hunit : max ((n.log2 : Int) - 52) (-1074) = n.log2 - 52 := by omega
  have hbiased : ((n.log2 : Int) - 52 + 1074).toNat = n.log2 + 1022 := by omega
  have hup : (-((n.log2 : Int) - 52)).toNat = 52 - n.log2 := by omega
  have hdown : ((n.log2 : Int) - 52).toNat = 0 := by omega
  have hone : Nat.pow 2 0 = 1 := rfl
  -- The bits are the biased exponent above the mantissa, which has no places to be rounded.
  rw [ofRatio]
  simp only [binaryExponent_one hn, hunit, hbiased, hup, hdown, hone, Nat.mul_one, roundDiv_one]
  refine isInf_ofBits ?_
  rw [UInt64.toNat_ofNat']
  refine Nat.lt_of_le_of_lt (Nat.mod_le _ _) ?_
  exact Nat.lt_of_le_of_lt (Nat.min_le_left _ _) hbits

/-- Reading a whole number of a word does not give infinity. -/
theorem isInf_nearest {n : Nat} (h : n < UInt32.size) : (nearest n 0).isInf = false := by
  have hsize : UInt32.size = 2 ^ 32 := rfl
  have hdigits : (Nat.toDigits 10 n).length ≤ 10 :=
    (Nat.length_toDigits_le_iff (by decide) (by decide)).2 (by omega)
  unfold nearest
  dsimp only
  split
  · decide
  next hlow =>
    rw [if_neg (by omega)]
    have hn : n ≠ 0 := by
      rintro rfl
      simp at hlow
    have hone : Nat.pow 10 0 = 1 := rfl
    rw [Int.neg_zero, Int.toNat_zero, hone, Nat.mul_one]
    exact isInf_ofRatio_one hn (hsize ▸ h)

end Linewise.Decimal
