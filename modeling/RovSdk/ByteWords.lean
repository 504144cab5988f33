import Mathlib.Data.UInt
import Mathlib.Data.Nat.Bitwise

namespace RovSdk.ByteWords

def word16 (lo hi : UInt8) : UInt16 :=
  lo.toUInt16 ||| (hi.toUInt16 <<< 8)

def word32 (lo hi : UInt16) : UInt32 :=
  lo.toUInt32 ||| (hi.toUInt32 <<< 16)

def lowByte (v : UInt16) : UInt8 := (v &&& 0xFF).toUInt8

def highByte (v : UInt16) : UInt8 := (v >>> 8).toUInt8

def lowHalf (v : UInt32) : UInt16 := (v &&& 0xFFFF).toUInt16

def highHalf (v : UInt32) : UInt16 := (v >>> 16).toUInt16

/-- Disjunction with a shifted word adds when the low part fits under the shift. -/
theorem or_shiftLeft_eq_add {lo hi k : Nat} (hlo : lo < 2 ^ k) :
    lo ||| hi <<< k = lo + 2 ^ k * hi := by
  rw [Nat.or_comm, ← Nat.shiftLeft_add_eq_or_of_lt hlo, Nat.shiftLeft_eq,
    Nat.mul_comm, Nat.add_comm]

theorem word16_toNat (lo hi : UInt8) :
    (word16 lo hi).toNat = lo.toNat + 256 * hi.toNat := by
  have hlo := lo.toNat_lt
  have hhi := hi.toNat_lt
  have hfit : hi.toNat <<< 8 % 2 ^ 16 = hi.toNat <<< 8 := by
    rw [Nat.shiftLeft_eq]
    omega
  simp only [word16, UInt16.toNat_or, UInt16.toNat_shiftLeft, UInt8.toNat_toUInt16]
  change lo.toNat ||| hi.toNat <<< 8 % 2 ^ 16 = _
  rw [hfit, or_shiftLeft_eq_add hlo]
  omega

theorem word32_toNat (lo hi : UInt16) :
    (word32 lo hi).toNat = lo.toNat + 65536 * hi.toNat := by
  have hlo := lo.toNat_lt
  have hhi := hi.toNat_lt
  have hfit : hi.toNat <<< 16 % 2 ^ 32 = hi.toNat <<< 16 := by
    rw [Nat.shiftLeft_eq]
    omega
  simp only [word32, UInt32.toNat_or, UInt32.toNat_shiftLeft, UInt16.toNat_toUInt32]
  change lo.toNat ||| hi.toNat <<< 16 % 2 ^ 32 = _
  rw [hfit, or_shiftLeft_eq_add hlo]
  omega

@[simp] theorem lowByte_toNat (v : UInt16) : (lowByte v).toNat = v.toNat % 256 := by
  simp only [lowByte, UInt16.toNat_toUInt8, UInt16.toNat_and]
  change (v.toNat &&& 2 ^ 8 - 1) % 256 = v.toNat % 256
  rw [Nat.and_two_pow_sub_one_eq_mod, Nat.mod_mod]

@[simp] theorem highByte_toNat (v : UInt16) : (highByte v).toNat = v.toNat / 256 := by
  have hv := v.toNat_lt
  simp only [highByte, UInt16.toNat_toUInt8, UInt16.toNat_shiftRight]
  change v.toNat >>> 8 % 256 = v.toNat / 256
  rw [Nat.shiftRight_eq_div_pow]
  omega

@[simp] theorem lowHalf_toNat (v : UInt32) : (lowHalf v).toNat = v.toNat % 65536 := by
  simp only [lowHalf, UInt32.toNat_toUInt16, UInt32.toNat_and]
  change (v.toNat &&& 2 ^ 16 - 1) % 65536 = v.toNat % 65536
  rw [Nat.and_two_pow_sub_one_eq_mod, Nat.mod_mod]

@[simp] theorem highHalf_toNat (v : UInt32) : (highHalf v).toNat = v.toNat / 65536 := by
  have hv := v.toNat_lt
  simp only [highHalf, UInt32.toNat_toUInt16, UInt32.toNat_shiftRight]
  change v.toNat >>> 16 % 65536 = v.toNat / 65536
  rw [Nat.shiftRight_eq_div_pow]
  omega

@[simp] theorem word16_lowByte_highByte (v : UInt16) :
    word16 (lowByte v) (highByte v) = v := by
  apply UInt16.toNat_inj.mp
  rw [word16_toNat, lowByte_toNat, highByte_toNat]
  omega

@[simp] theorem lowByte_word16 (lo hi : UInt8) : lowByte (word16 lo hi) = lo := by
  have hlo := lo.toNat_lt
  apply UInt8.toNat_inj.mp
  rw [lowByte_toNat, word16_toNat]
  omega

@[simp] theorem highByte_word16 (lo hi : UInt8) : highByte (word16 lo hi) = hi := by
  have hlo := lo.toNat_lt
  apply UInt8.toNat_inj.mp
  rw [highByte_toNat, word16_toNat]
  omega

@[simp] theorem word32_lowHalf_highHalf (v : UInt32) :
    word32 (lowHalf v) (highHalf v) = v := by
  apply UInt32.toNat_inj.mp
  rw [word32_toNat, lowHalf_toNat, highHalf_toNat]
  omega

@[simp] theorem lowHalf_word32 (lo hi : UInt16) : lowHalf (word32 lo hi) = lo := by
  have hlo := lo.toNat_lt
  apply UInt16.toNat_inj.mp
  rw [lowHalf_toNat, word32_toNat]
  omega

@[simp] theorem highHalf_word32 (lo hi : UInt16) : highHalf (word32 lo hi) = hi := by
  have hlo := lo.toNat_lt
  apply UInt16.toNat_inj.mp
  rw [highHalf_toNat, word32_toNat]
  omega

end RovSdk.ByteWords
