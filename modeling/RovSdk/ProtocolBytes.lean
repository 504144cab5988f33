import RovSdk.ByteWords
import RovSdk.ListSlices

/-!
The byte level of the v0.2.0 protocol: frame constants, explicit little-endian
reads and writes, CRC-16/MODBUS, and the two framing helpers shared by every
encoder and decoder.  A `std::vector<uint8_t>` or `std::span` is a list of bytes
and a `float` is the 32-bit pattern that `std::bit_cast` moves.
-/

namespace RovSdk.ProtocolBytes

open RovSdk.ByteWords
open RovSdk.ListSlices

def kStx0 : UInt8 := 0xAA
def kStx1 : UInt8 := 0x55
def kProtocolVersion : UInt8 := 0x02
def kTypeCmd : UInt8 := 0x01
def kTypeTele : UInt8 := 0x02
def kNumThrusters : Nat := 8
def kFrameOverhead : Nat := 7
def kCmdPayloadSize : Nat := 52
def kTelePayloadSize : Nat := 128

def putU8 (out : List UInt8) (v : UInt8) : List UInt8 := out ++ [v]

def putU16LE (out : List UInt8) (v : UInt16) : List UInt8 :=
  putU8 (putU8 out (lowByte v)) (highByte v)

def putF32LE (out : List UInt8) (bits : UInt32) : List UInt8 :=
  putU16LE (putU16LE out (lowHalf bits)) (highHalf bits)

def putBytes (out bytes : List UInt8) : List UInt8 := out ++ bytes

/-- An indexed read.  The source indexes unchecked, after a size check that puts
every offset in range. -/
def getU8 (s : List UInt8) (off : Nat) : UInt8 := s.getD off 0

def getU16LE (s : List UInt8) (off : Nat) : UInt16 :=
  word16 (getU8 s off) (getU8 s (off + 1))

def getF32LE (s : List UInt8) (off : Nat) : UInt32 :=
  word32 (getU16LE s off) (getU16LE s (off + 2))

/-- One turn of the inner loop of `crc16`. -/
def crcBit (crc : UInt16) : UInt16 :=
  if crc &&& 1 ≠ 0 then (crc >>> 1) ^^^ 0xA001 else crc >>> 1

def crcByte (crc : UInt16) (byte : UInt8) : UInt16 :=
  crcBit^[8] (crc ^^^ byte.toUInt16)

def crc16 (data : List UInt8) : UInt16 := data.foldl crcByte 0xFFFF

/-- The CRC covers version, length, type and payload, not the two STX bytes. -/
def encodeFrame (payload : List UInt8) (type : UInt8) : List UInt8 :=
  let out := [kStx0, kStx1, kProtocolVersion, UInt8.ofNat payload.length, type]
  let out := out ++ payload
  let crc := crc16 (slice out 2 (3 + payload.length))
  putU16LE out crc

def validateFrameHeader (frame : List UInt8) (expectedType : UInt8)
    (payloadSize : Nat) : Bool :=
  if frame.length < kFrameOverhead + payloadSize then false
  else if getU8 frame 0 ≠ kStx0 ∨ getU8 frame 1 ≠ kStx1 then false
  else if getU8 frame 2 ≠ kProtocolVersion then false
  else if (getU8 frame 3).toNat ≠ payloadSize then false
  else if getU8 frame 4 ≠ expectedType then false
  else
    let crc := crc16 (slice frame 2 (3 + payloadSize))
    if crc ≠ getU16LE frame (kFrameOverhead + payloadSize - 2) then false
    else true

@[simp] theorem putU8_eq (out : List UInt8) (v : UInt8) : putU8 out v = out ++ [v] := rfl

@[simp] theorem putBytes_eq (out bytes : List UInt8) : putBytes out bytes = out ++ bytes := rfl

def bytesU16LE (v : UInt16) : List UInt8 := [lowByte v, highByte v]

def bytesF32LE (bits : UInt32) : List UInt8 :=
  bytesU16LE (lowHalf bits) ++ bytesU16LE (highHalf bits)

@[simp] theorem putU16LE_eq (out : List UInt8) (v : UInt16) :
    putU16LE out v = out ++ bytesU16LE v := by
  simp [putU16LE, bytesU16LE]

@[simp] theorem putF32LE_eq (out : List UInt8) (bits : UInt32) :
    putF32LE out bits = out ++ bytesF32LE bits := by
  simp [putF32LE, bytesF32LE]

@[simp] theorem length_bytesU16LE (v : UInt16) : (bytesU16LE v).length = 2 := rfl

@[simp] theorem length_bytesF32LE (bits : UInt32) : (bytesF32LE bits).length = 4 := rfl

theorem kFrameOverhead_eq : kFrameOverhead = 7 := rfl

theorem getU8_append {s : List UInt8} {k : Nat} (hk : k < s.length) (t : List UInt8) :
    getU8 (s ++ t) k = getU8 s k := by
  rw [getU8, getU8, List.getD_append _ _ _ _ hk]

theorem getU16LE_append {s : List UInt8} {k : Nat} (hk : k + 1 < s.length)
    (t : List UInt8) : getU16LE (s ++ t) k = getU16LE s k := by
  rw [getU16LE, getU16LE, getU8_append (by omega), getU8_append hk]

theorem getU8_drop (s : List UInt8) (i k : Nat) :
    getU8 (s.drop i) k = getU8 s (i + k) := by
  simp only [getU8, List.getD_eq_getElem?_getD, List.getElem?_drop]

theorem getU16LE_drop (s : List UInt8) (i k : Nat) :
    getU16LE (s.drop i) k = getU16LE s (i + k) := by
  rw [getU16LE, getU16LE, getU8_drop, getU8_drop, Nat.add_assoc]

theorem getU8_slice {s : List UInt8} {off len k : Nat} (hk : k < len) :
    getU8 (slice s off len) k = getU8 s (off + k) :=
  getD_slice hk 0

theorem bytesU16LE_getU16LE {s : List UInt8} {off : Nat} (h : off + 2 ≤ s.length) :
    bytesU16LE (getU16LE s off) = slice s off 2 := by
  rw [bytesU16LE, getU16LE, lowByte_word16, highByte_word16,
    ← slice_append_slice s off 1 1, slice_one (by omega) 0, slice_one (by omega) 0]
  rfl

theorem bytesF32LE_getF32LE {s : List UInt8} {off : Nat} (h : off + 4 ≤ s.length) :
    bytesF32LE (getF32LE s off) = slice s off 4 := by
  rw [bytesF32LE, getF32LE, lowHalf_word32, highHalf_word32,
    bytesU16LE_getU16LE (by omega), bytesU16LE_getU16LE (by omega), slice_append_slice]

theorem getU16LE_of_slice {s : List UInt8} {off : Nat} {v : UInt16}
    (h : slice s off 2 = bytesU16LE v) : getU16LE s off = v := by
  have hlo : getU8 s off = lowByte v := by
    rw [← Nat.add_zero off, ← getU8_slice (show 0 < 2 by omega), h]
    rfl
  have hhi : getU8 s (off + 1) = highByte v := by
    rw [← getU8_slice (show 1 < 2 by omega), h]
    rfl
  rw [getU16LE, hlo, hhi, word16_lowByte_highByte]

theorem getF32LE_of_slice {s : List UInt8} {off : Nat} {bits : UInt32}
    (h : slice s off 4 = bytesF32LE bits) : getF32LE s off = bits := by
  have hlo : getU16LE s off = lowHalf bits := by
    apply getU16LE_of_slice
    rw [show slice s off 2 = (slice s off 4).take 2 by simp [slice, List.take_take], h]
    rfl
  have hhi : getU16LE s (off + 2) = highHalf bits := by
    apply getU16LE_of_slice
    rw [show slice s (off + 2) 2 = (slice s off 4).drop 2 by
      simp [slice, List.drop_take, List.drop_drop], h]
    rfl
  rw [getF32LE, hlo, hhi, word32_lowHalf_highHalf]

end RovSdk.ProtocolBytes
