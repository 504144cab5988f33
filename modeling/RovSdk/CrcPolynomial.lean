import RovSdk.ProtocolBytes
import RovSdk.ShiftRegister

namespace RovSdk.CrcPolynomial

open Polynomial
open RovSdk.ByteWords
open RovSdk.ProtocolBytes
open RovSdk.BitPolynomial
open RovSdk.ShiftRegister

def byteBits (b : UInt8) : List Bool := List.ofFn fun i : Fin 8 => b.toBitVec.getLsbD i

def wordBits (v : UInt16) : List Bool := List.ofFn fun i : Fin 16 => v.toBitVec.getLsbD i

def dataBits (data : List UInt8) : List Bool := (data.map byteBits).flatten

/-- The coefficients of the generator below `X ^ 16`: the polynomial constant of the
source read as a register. -/
def crcTaps : List Bool := wordBits 0xA001

@[simp] theorem length_byteBits (b : UInt8) : (byteBits b).length = 8 := List.length_ofFn

@[simp] theorem length_wordBits (v : UInt16) : (wordBits v).length = 16 := List.length_ofFn

@[simp] theorem length_crcTaps : crcTaps.length = 16 := length_wordBits _

theorem length_dataBits (data : List UInt8) : (dataBits data).length = 8 * data.length := by
  induction data with
  | nil => rfl
  | cons b data ih =>
      simp only [dataBits, List.map_cons, List.flatten_cons, List.length_append,
        length_byteBits, List.length_cons] at ih ⊢
      omega

theorem dataBits_append (d d' : List UInt8) :
    dataBits (d ++ d') = dataBits d ++ dataBits d' := by
  simp [dataBits]

theorem length_le_of_mem_map_byteBits {data : List UInt8} {chunk : List Bool}
    (h : chunk ∈ data.map byteBits) : chunk.length ≤ crcTaps.length := by
  obtain ⟨b, -, rfl⟩ := List.mem_map.mp h
  simp

theorem wordBits_injective : Function.Injective wordBits := by
  intro v w h
  rw [wordBits, wordBits, List.ofFn_inj] at h
  apply UInt16.toBitVec_inj.mp
  apply BitVec.eq_of_getLsbD_eq
  intro i hi
  exact congrFun h ⟨i, hi⟩

theorem wordBits_xor (v w : UInt16) :
    wordBits (v ^^^ w) = (wordBits v).zipWith xor (wordBits w) := by
  apply List.ext_getElem
  · simp
  · intro i hi _
    simp [wordBits]

theorem byteBits_xor (b c : UInt8) :
    byteBits (b ^^^ c) = (byteBits b).zipWith xor (byteBits c) := by
  apply List.ext_getElem
  · simp
  · intro i hi _
    simp [byteBits]

theorem wordBits_eq_cons (v : UInt16) :
    wordBits v = v.toBitVec.getLsbD 0 ::
      List.ofFn fun i : Fin 15 => v.toBitVec.getLsbD (i + 1) := by
  rw [wordBits, List.ofFn_succ]
  rfl

theorem wordBits_shiftRight (v : UInt16) :
    wordBits (v >>> 1) =
      (List.ofFn fun i : Fin 15 => v.toBitVec.getLsbD (i + 1)) ++ [false] := by
  simp [wordBits]

theorem and_one_ne_zero_iff (v : UInt16) :
    v &&& 1 ≠ 0 ↔ v.toBitVec.getLsbD 0 = true := by
  have hand : (v &&& 1).toNat = v.toNat % 2 := by
    rw [UInt16.toNat_and]
    exact Nat.and_one_is_mod _
  rw [Ne, ← UInt16.toNat_inj, hand, BitVec.getLsbD, UInt16.toNat_toBitVec, Nat.testBit_zero]
  simp

/-- One turn of the inner loop of `crc16` is one shift. -/
theorem wordBits_crcBit (crc : UInt16) :
    wordBits (crcBit crc) = shift crcTaps (wordBits crc) := by
  rw [crcBit, wordBits_eq_cons crc, shift]
  by_cases hbit : crc.toBitVec.getLsbD 0 = true
  · rw [if_pos ((and_one_ne_zero_iff crc).mpr hbit), if_pos hbit, wordBits_xor,
      wordBits_shiftRight]
    rfl
  · rw [if_neg fun h => hbit ((and_one_ne_zero_iff crc).mp h), if_neg hbit,
      wordBits_shiftRight]

theorem wordBits_iterate_crcBit (n : Nat) (crc : UInt16) :
    wordBits (crcBit^[n] crc) = (shift crcTaps)^[n] (wordBits crc) :=
  Function.Semiconj.iterate_right wordBits_crcBit n crc

theorem wordBits_toUInt16 (b : UInt8) :
    wordBits b.toUInt16 = byteBits b ++ List.replicate 8 false := by
  simp [wordBits, byteBits]

theorem wordBits_crcByte (crc : UInt16) (byte : UInt8) :
    wordBits (crcByte crc byte) = absorb crcTaps (wordBits crc) (byteBits byte) := by
  rw [crcByte, wordBits_iterate_crcBit, wordBits_xor, wordBits_toUInt16, absorb,
    length_byteBits, length_wordBits]

theorem wordBits_foldl_crcByte (crc : UInt16) (data : List UInt8) :
    wordBits (data.foldl crcByte crc) =
      (data.map byteBits).foldl (absorb crcTaps) (wordBits crc) := by
  induction data generalizing crc with
  | nil => rfl
  | cons b data ih => rw [List.foldl_cons, ih, wordBits_crcByte, List.map_cons, List.foldl_cons]

theorem dataBits_bytesU16LE (v : UInt16) : dataBits (bytesU16LE v) = wordBits v := by
  simp [dataBits, bytesU16LE, byteBits, wordBits, lowByte, highByte]

theorem wordBits_crc16 (data : List UInt8) :
    wordBits (crc16 data) =
      (data.map byteBits).foldl (absorb crcTaps) (wordBits 0xFFFF) :=
  wordBits_foldl_crcByte 0xFFFF data

/-- The known answer for the digits `123456789`. -/
example : crc16 [0x31, 0x32, 0x33, 0x34, 0x35, 0x36, 0x37, 0x38, 0x39] = 0x4B37 := by
  decide +kernel

/-- `v` is not among the next `n` values from `w` on. -/
def avoids (v : UInt16) : Nat → UInt16 → Bool
  | 0, _ => true
  | n + 1, w => w != v && avoids v n (crcBit w)

theorem iterate_ne_of_avoids {v w : UInt16} {n : Nat} (h : avoids v n w = true) {k : Nat}
    (hk : k < n) : crcBit^[k] w ≠ v := by
  induction n generalizing w k with
  | zero => omega
  | succ n ih =>
      simp only [avoids, Bool.and_eq_true, bne_iff_ne] at h
      cases k with
      | zero => exact h.1
      | succ k => exact ih h.2 (by omega)

/-- The register of the polynomial 1 does not come back within the bits of the longest
frame, so no two bit errors in a frame cancel. -/
theorem not_generator_dvd_X_pow_add_one {k : Nat} (hpos : 0 < k) (hk : k < 2096) :
    ¬generator crcTaps ∣ X ^ k + 1 := by
  have havoids : avoids 0x8000 2095 (crcBit 0x8000) = true := by decide +kernel
  have hunit : wordBits 0x8000 = unitRegister crcTaps := by decide
  apply not_generator_dvd_of_iterate_ne (by rw [length_crcTaps]; omega)
  rw [← hunit, ← wordBits_iterate_crcBit, wordBits_injective.ne_iff]
  obtain ⟨j, rfl⟩ : ∃ j, k = j + 1 := ⟨k - 1, by omega⟩
  exact iterate_ne_of_avoids havoids (by omega)

end RovSdk.CrcPolynomial
