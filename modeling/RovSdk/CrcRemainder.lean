import Mathlib.Tactic.NormNum
import RovSdk.CrcPolynomial

namespace RovSdk.CrcRemainder

open Polynomial
open RovSdk.ProtocolBytes
open RovSdk.BitPolynomial
open RovSdk.ShiftRegister
open RovSdk.CrcPolynomial

theorem generator_crcTaps : generator crcTaps = X ^ 16 + X ^ 15 + X ^ 2 + 1 := by
  have hbits : crcTaps = [true, false, false, false, false, false, false, false, false, false,
      false, false, false, true, false, true] := by decide
  rw [generator, hbits]
  simp
  ring

theorem ofBits_replicate_true (n : Nat) :
    ofBits (List.replicate n true) = ∑ i ∈ Finset.range n, X ^ i := by
  induction n with
  | zero => rfl
  | succ n ih =>
      rw [List.replicate_succ, ofBits_true, ih, List.length_replicate,
        Finset.sum_range_succ, add_comm]

theorem eq_zero_of_true_notMem_wordBits {v : UInt16} (h : true ∉ wordBits v) : v = 0 := by
  have hfalse : wordBits v = List.replicate 16 false := by
    rw [List.eq_replicate_iff]
    exact ⟨length_wordBits v, fun b hb => by
      cases b with
      | false => rfl
      | true => exact absurd hb h⟩
  exact wordBits_injective (hfalse.trans (by decide))

/-- A receiver that runs the CRC bytes through its register as well ends at zero. -/
theorem crc16_append_self (data : List UInt8) :
    crc16 (data ++ bytesU16LE (crc16 data)) = 0 := by
  have hchunks : ∀ chunk ∈ data.map byteBits ++ (bytesU16LE (crc16 data)).map byteBits,
      chunk.length ≤ crcTaps.length := by
    intro chunk hchunk
    rw [← List.map_append] at hchunk
    exact length_le_of_mem_map_byteBits hchunk
  have htail : ((bytesU16LE (crc16 data)).map byteBits).flatten =
      (data.map byteBits).foldl (absorb crcTaps) (wordBits 0xFFFF) := by
    rw [← wordBits_crc16, ← dataBits, dataBits_bytesU16LE]
  apply eq_zero_of_true_notMem_wordBits
  rw [wordBits_crc16, List.map_append]
  exact true_notMem_foldl_absorb (length_wordBits _) hchunks htail

/-- The CRC of a byte string is the remainder of its message polynomial, shifted by the
width of the register, with the initial register in front of the message. -/
theorem crc16_is_remainder (data : List UInt8) :
    ofBits (wordBits (crc16 data)) =
        (ofBits (dataBits data) * X ^ 16 +
          (∑ i ∈ Finset.range 16, X ^ i) * X ^ (8 * data.length)) %ₘ
            (X ^ 16 + X ^ 15 + X ^ 2 + 1) ∧
      crc16 (data ++ bytesU16LE (crc16 data)) = 0 := by
  have hinit : wordBits 0xFFFF = List.replicate 16 true := by decide
  refine ⟨?_, crc16_append_self data⟩
  rw [← generator_crcTaps, ← ofBits_replicate_true, ← hinit, wordBits_crc16,
    ofBits_foldl_absorb (length_wordBits _) fun _ => length_le_of_mem_map_byteBits,
    length_crcTaps, ← dataBits, length_dataBits]

end RovSdk.CrcRemainder
