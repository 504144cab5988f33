import RovSdk.CheckedAccess
import RovSdk.FrameLink
import RovSdk.Results

namespace RovSdk.MemorySafety

open RovSdk.Results
open RovSdk.ByteWords
open RovSdk.ListSlices
open RovSdk.CheckedAccess
open RovSdk.ProtocolBytes
open RovSdk.Packets
open RovSdk.StreamParser
open RovSdk.FrameLink

variable {s buf buf' : List UInt8}

namespace Safe

def getU8 (s : List UInt8) (off : Nat) : Checked UInt8 := readAt s off

def getU16LE (s : List UInt8) (off : Nat) : Checked UInt16 := do
  let lo ← getU8 s off
  let hi ← getU8 s (off + 1)
  return word16 lo hi

def getF32LE (s : List UInt8) (off : Nat) : Checked UInt32 := do
  let lo ← getU16LE s off
  let hi ← getU16LE s (off + 2)
  return word32 lo hi

/-- Both operands of a `||` are read, also where the source stops at the first. -/
def validateFrameHeader (frame : List UInt8) (expectedType : UInt8) (payloadSize : Nat) :
    Checked Bool := do
  if frame.length < kFrameOverhead + payloadSize then return false
  if (← getU8 frame 0) ≠ kStx0 ∨ (← getU8 frame 1) ≠ kStx1 then return false
  if (← getU8 frame 2) ≠ kProtocolVersion then return false
  if (← getU8 frame 3).toNat ≠ payloadSize then return false
  if (← getU8 frame 4) ≠ expectedType then return false
  let crc := crc16 (← subSpan frame 2 (3 + payloadSize))
  let got ← getU16LE frame (← subtract (kFrameOverhead + payloadSize) 2)
  if crc ≠ got then return false
  return true

def readCmd (frame : List UInt8) : Checked CmdPacket := do
  let mode ← getU8 frame (5 + 0)
  let armed ← getU8 frame (5 + 1)
  let reserved₀ ← getU8 frame (5 + 2)
  let reserved₁ ← getU8 frame (5 + 3)
  let surge ← getF32LE frame (5 + 4)
  let sway ← getF32LE frame (5 + 8)
  let heave ← getF32LE frame (5 + 12)
  let yaw ← getF32LE frame (5 + 16)
  let targetDepth ← getF32LE frame (5 + 20)
  let targetHeading ← getF32LE frame (5 + 24)
  let targetNorth ← getF32LE frame (5 + 28)
  let targetEast ← getF32LE frame (5 + 32)
  let reservedTail ← Vector.ofFnM fun i => getU8 frame (5 + 36 + i)
  return {
    mode, armed, reserved := #v[reserved₀, reserved₁], surge, sway, heave, yaw, targetDepth,
    targetHeading, targetNorth, targetEast, reservedTail }

def readTele (frame : List UInt8) : Checked TelemetryPacket := do
  let roll ← getF32LE frame (5 + 0)
  let pitch ← getF32LE frame (5 + 4)
  let heading ← getF32LE frame (5 + 8)
  let yawRate ← getF32LE frame (5 + 12)
  let depth ← getF32LE frame (5 + 16)
  let altitude ← getF32LE frame (5 + 20)
  let north ← getF32LE frame (5 + 24)
  let east ← getF32LE frame (5 + 28)
  let vn ← getF32LE frame (5 + 32)
  let ve ← getF32LE frame (5 + 36)
  let vd ← getF32LE frame (5 + 40)
  let voltage ← getF32LE frame (5 + 44)
  let current ← getF32LE frame (5 + 48)
  let percent ← getF32LE frame (5 + 52)
  let temperature ← getF32LE frame (5 + 56)
  let waterTemp ← getF32LE frame (5 + 60)
  let salinity ← getF32LE frame (5 + 64)
  let pressureBar ← getF32LE frame (5 + 68)
  let cableTension ← getF32LE frame (5 + 72)
  let thr ← Vector.ofFnM fun i => getF32LE frame (5 + 76 + 4 * i)
  let leak ← getU8 frame (5 + 108)
  let armed ← getU8 frame (5 + 109)
  let mode ← getU8 frame (5 + 110)
  let reserved ← getU8 frame (5 + 111)
  let reservedTail ← Vector.ofFnM fun i => getU8 frame (5 + 112 + i)
  return {
    roll, pitch, heading, yawRate, depth, altitude, north, east, vn, ve, vd, voltage,
    current, percent, temperature, waterTemp, salinity, pressureBar, cableTension, thr,
    leak, armed, mode, reserved, reservedTail }

def decodeCmd (frame : List UInt8) : Checked (Option CmdPacket) := do
  if !(← validateFrameHeader frame kTypeCmd kCmdPayloadSize) then return none
  return some (← readCmd frame)

def decodeTele (frame : List UInt8) : Checked (Option TelemetryPacket) := do
  if !(← validateFrameHeader frame kTypeTele kTelePayloadSize) then return none
  return some (← readTele frame)

def checkDatagram (data : List UInt8) : Checked (Option (List UInt8)) := do
  if data.length < kFrameOverhead then return none
  let len ← getU8 data 3
  let total := kFrameOverhead + len.toNat
  if data.length ≠ total then return none
  if (← getU8 data 0) ≠ kStx0 ∨ (← getU8 data 1) ≠ kStx1 ∨
      (← getU8 data 2) ≠ kProtocolVersion then
    return none
  let crc := crc16 (← subSpan data 2 (3 + len.toNat))
  let lo ← getU8 data (← subtract total 2)
  let hi ← getU8 data (← subtract total 1)
  if crc ≠ word16 lo hi then return none
  return some data

def udpRecvFrame (env : Env) (timeout : Int64) (l : Link) :
    Checked (Outcome (List UInt8) × Link) := do
  if timeout ≤ 0 then return (.returned none, l)
  match env.recvBytes l.timeouts.length with
  | none => return (.returned none, l.ask timeout)
  | some data => return (.returned (← checkDatagram data), l.ask timeout)

/-- The inner loop of `next_frame` from `pos` on, for at most `fuel` turns. -/
def findStx (buf : List UInt8) : Nat → Nat → Checked Nat
  | 0, _ => .error .notTerminated
  | fuel + 1, pos =>
      if pos + 1 < buf.length then do
        if (← getU8 buf pos) = kStx0 ∧ (← getU8 buf (pos + 1)) = kStx1 then return pos
        findStx buf fuel (pos + 1)
      else return pos

def turn (buf : List UInt8) : Checked Turn := do
  let pos ← findStx buf (buf.length + 1) 0
  if pos + 1 ≥ buf.length then
    if (← getU8 buf (← subtract buf.length 1)) = kStx0 then
      return .done none (← eraseFront buf pos)
    return .done none []
  if (← subtract buf.length pos) < kFrameOverhead then
    return .done none (← eraseFront buf pos)
  let ver ← getU8 buf (pos + 2)
  let len ← getU8 buf (pos + 3)
  let total := kFrameOverhead + len.toNat
  if ver ≠ kProtocolVersion then return .again (← eraseFront buf (pos + 1))
  if (← subtract buf.length pos) < total then return .done none (← eraseFront buf pos)
  let crc := crc16 (← subSpan buf (pos + 2) (3 + len.toNat))
  let lo ← getU8 buf (← subtract (pos + total) 2)
  let hi ← getU8 buf (← subtract (pos + total) 1)
  if crc ≠ word16 lo hi then return .again (← eraseFront buf (pos + 1))
  let frame ← subSpan buf pos total
  return .done (some frame) (← eraseFront buf (pos + total))

def nextFrame : Nat → List UInt8 → Checked (Option (List UInt8) × List UInt8)
  | 0, _ => .error .notTerminated
  | fuel + 1, buf =>
      if buf.length ≥ kFrameOverhead then do
        match ← turn buf with
        | .again buf' => nextFrame fuel buf'
        | .done frame buf' => return (frame, buf')
      else return (none, buf)

end Safe

theorem getU8_ok {off : Nat} (h : off < s.length) : Safe.getU8 s off = .ok (getU8 s off) :=
  readAt_of_lt h 0

theorem getU16LE_ok {off : Nat} (h : off + 1 < s.length) :
    Safe.getU16LE s off = .ok (getU16LE s off) := by
  rw [Safe.getU16LE, getU8_ok (by omega), getU8_ok h]
  rfl

theorem getF32LE_ok {off : Nat} (h : off + 3 < s.length) :
    Safe.getF32LE s off = .ok (getF32LE s off) := by
  rw [Safe.getF32LE, getU16LE_ok (by omega), getU16LE_ok h]
  rfl

theorem readCmd_ok {frame : List UInt8} (h : kFrameOverhead + kCmdPayloadSize ≤ frame.length) :
    Safe.readCmd frame = .ok (readCmd frame) := by
  have hlen : 59 ≤ frame.length := h
  have htail : Vector.ofFnM (fun i : Fin 16 => Safe.getU8 frame (5 + 36 + i)) =
      .ok (Vector.ofFn fun i : Fin 16 => getU8 frame (5 + 36 + i)) :=
    ofFnM_ok fun i => getU8_ok (by omega)
  rw [Safe.readCmd, htail]
  simp (disch := omega) only [getU8_ok, getF32LE_ok, ok_bind]
  rfl

theorem readTele_ok {frame : List UInt8}
    (h : kFrameOverhead + kTelePayloadSize ≤ frame.length) :
    Safe.readTele frame = .ok (readTele frame) := by
  have hlen : 135 ≤ frame.length := h
  have hthr : Vector.ofFnM
      (fun i : Fin kNumThrusters => Safe.getF32LE frame (5 + 76 + 4 * i)) =
      .ok (Vector.ofFn fun i : Fin kNumThrusters => getF32LE frame (5 + 76 + 4 * i)) :=
    ofFnM_ok fun i => getF32LE_ok (by
      have hi : i.val < 8 := i.isLt
      omega)
  have htail : Vector.ofFnM (fun i : Fin 16 => Safe.getU8 frame (5 + 112 + i)) =
      .ok (Vector.ofFn fun i : Fin 16 => getU8 frame (5 + 112 + i)) :=
    ofFnM_ok fun i => getU8_ok (by omega)
  rw [Safe.readTele, htail, hthr]
  simp (disch := omega) only [getU8_ok, getF32LE_ok, ok_bind]
  rfl

theorem validateFrameHeader_ok (frame : List UInt8) (expectedType : UInt8)
    (payloadSize : Nat) :
    Safe.validateFrameHeader frame expectedType payloadSize =
      .ok (validateFrameHeader frame expectedType payloadSize) := by
  have hk := kFrameOverhead_eq
  rw [Safe.validateFrameHeader, validateFrameHeader]
  by_cases hshort : frame.length < kFrameOverhead + payloadSize
  · rw [if_pos hshort, if_pos hshort]
    rfl
  · rw [if_neg hshort, if_neg hshort]
    simp (disch := omega) only [getU8_ok, getU16LE_ok, subSpan_of_le, subtract_of_le, ok_bind]
    split_ifs <;> rfl

theorem length_le_of_validateFrameHeader {frame : List UInt8} {expectedType : UInt8}
    {payloadSize : Nat} (h : validateFrameHeader frame expectedType payloadSize = true) :
    kFrameOverhead + payloadSize ≤ frame.length := by
  by_contra hshort
  rw [validateFrameHeader, if_pos (by omega)] at h
  exact Bool.false_ne_true h

theorem decodeCmd_ok (frame : List UInt8) :
    Safe.decodeCmd frame = .ok (decodeCmd frame) := by
  rw [Safe.decodeCmd, validateFrameHeader_ok, ok_bind, decodeCmd]
  split_ifs with hinvalid
  · rfl
  · rw [Bool.not_eq_true, Bool.not_eq_false'] at hinvalid
    rw [readCmd_ok (length_le_of_validateFrameHeader hinvalid)]
    rfl

theorem decodeTele_ok (frame : List UInt8) :
    Safe.decodeTele frame = .ok (decodeTele frame) := by
  rw [Safe.decodeTele, validateFrameHeader_ok, ok_bind, decodeTele]
  split_ifs with hinvalid
  · rfl
  · rw [Bool.not_eq_true, Bool.not_eq_false'] at hinvalid
    rw [readTele_ok (length_le_of_validateFrameHeader hinvalid)]
    rfl

/-- The source takes the two bytes of a CRC one by one, from the end. -/
theorem word16_eq_getU16LE {n : Nat} (hn : 2 ≤ n) (s : List UInt8) :
    word16 (getU8 s (n - 2)) (getU8 s (n - 1)) = getU16LE s (n - 2) := by
  rw [getU16LE, show n - 2 + 1 = n - 1 by omega]

theorem checkDatagram_ok (data : List UInt8) :
    Safe.checkDatagram data = .ok (checkDatagram data) := by
  have hk := kFrameOverhead_eq
  rw [Safe.checkDatagram, checkDatagram]
  by_cases hshort : data.length < kFrameOverhead
  · rw [if_pos hshort, if_pos hshort]
    rfl
  rw [if_neg hshort, if_neg hshort, getU8_ok (by omega), ok_bind]
  simp only
  by_cases htotal : data.length ≠ kFrameOverhead + (getU8 data 3).toNat
  · rw [if_pos htotal, if_pos htotal]
    rfl
  · rw [if_neg htotal, if_neg htotal]
    simp (disch := omega) only [getU8_ok, subSpan_of_le, subtract_of_le, ok_bind,
      word16_eq_getU16LE]
    split_ifs <;> rfl

theorem udpRecvFrame_ok (env : Env) (timeout : Int64) (l : Link) :
    Safe.udpRecvFrame env timeout l = .ok (udpRecvFrame env timeout l) := by
  rw [Safe.udpRecvFrame, udpRecvFrame]
  split_ifs
  · rfl
  · cases env.recvBytes l.timeouts.length with
    | none => rfl
    | some data =>
        simp only
        rw [checkDatagram_ok]
        rfl

theorem findStx_drop {pos : Nat} (h : pos + 1 < buf.length) :
    findStx (buf.drop pos) =
      if getU8 buf pos = kStx0 ∧ getU8 buf (pos + 1) = kStx1 then 0
      else findStx (buf.drop (pos + 1)) + 1 := by
  have hpos : pos < buf.length := by omega
  rw [getU8, getU8, List.getD_eq_getElem _ _ hpos, List.getD_eq_getElem _ _ h,
    List.drop_eq_getElem_cons hpos, List.drop_eq_getElem_cons h, findStx]

theorem findStx_drop_last {pos : Nat} (h : pos + 1 = buf.length) :
    findStx (buf.drop pos) = 0 := by
  have hpos : pos < buf.length := by omega
  rw [List.drop_eq_getElem_cons hpos, List.drop_eq_nil_of_le (by omega), findStx]

theorem findStx_ok {fuel pos : Nat} (hpos : pos < buf.length)
    (hfuel : buf.length ≤ fuel + pos) :
    Safe.findStx buf fuel pos = .ok (pos + findStx (buf.drop pos)) := by
  induction fuel generalizing pos with
  | zero => omega
  | succ fuel ih =>
      rw [Safe.findStx]
      by_cases hlast : pos + 1 < buf.length
      · rw [if_pos hlast, getU8_ok hpos, ok_bind, getU8_ok hlast, ok_bind, findStx_drop hlast]
        split_ifs with hstx
        · rfl
        · rw [ih hlast (by omega), Nat.add_assoc, Nat.add_comm 1]
      · rw [if_neg hlast, findStx_drop_last (by omega)]
        rfl

theorem turn_ok (hlen : kFrameOverhead ≤ buf.length) : Safe.turn buf = .ok (turn buf) := by
  have hk := kFrameOverhead_eq
  have hfound := findStx_lt buf (List.length_pos_iff.mp (by omega))
  rw [Safe.turn, turn, findStx_ok (by omega) (by omega), ok_bind, List.drop_zero,
    Nat.zero_add]
  generalize findStx buf = pos at hfound
  simp only
  by_cases hnone : pos + 1 ≥ buf.length
  · rw [if_pos hnone, if_pos hnone]
    simp (disch := omega) only [getU8_ok, subtract_of_le, eraseFront_of_le, ok_bind]
    split_ifs <;> rfl
  rw [if_neg hnone, if_neg hnone, subtract_of_le (by omega), ok_bind]
  by_cases hhead : buf.length - pos < kFrameOverhead
  · rw [if_pos hhead, if_pos hhead, eraseFront_of_le (by omega)]
    rfl
  rw [if_neg hhead, if_neg hhead]
  simp (disch := omega) only [getU8_ok, subtract_of_le, eraseFront_of_le, ok_bind]
  by_cases hver : getU8 buf (pos + 2) ≠ kProtocolVersion
  · rw [if_pos hver, if_pos hver]
    rfl
  rw [if_neg hver, if_neg hver]
  by_cases htotal : buf.length - pos < kFrameOverhead + (getU8 buf (pos + 3)).toNat
  · rw [if_pos htotal, if_pos htotal]
    rfl
  rw [if_neg htotal, if_neg htotal]
  simp (disch := omega) only [subSpan_of_le, ok_bind, word16_eq_getU16LE]
  split_ifs <;> rfl

theorem nextFrame_ok {fuel : Nat} (hfuel : buf.length < fuel) :
    Safe.nextFrame fuel buf = .ok (nextFrameLoop fuel buf) := by
  induction fuel generalizing buf with
  | zero => omega
  | succ fuel ih =>
      rw [Safe.nextFrame, nextFrameLoop]
      split_ifs with hlen
      · rw [turn_ok hlen, ok_bind]
        cases hturn : turn buf with
        | again buf' =>
            have hlt := length_lt_of_turn_again hturn
            exact ih (by omega)
        | done frame buf' => rfl
      · rfl

/-- On every byte sequence the decoders, the datagram receive and the parser's loop, with
every access, sub-span, difference and erased range checked, come to the results of the
plain functions; the loop ends within more turns than the buffer has bytes, and each
turn that goes round again has shortened the buffer. -/
theorem untrusted_bytes_safe :
    (∀ frame, Safe.decodeCmd frame = .ok (decodeCmd frame)) ∧
      (∀ frame, Safe.decodeTele frame = .ok (decodeTele frame)) ∧
      (∀ env timeout l, Safe.udpRecvFrame env timeout l = .ok (udpRecvFrame env timeout l)) ∧
      (∀ (p : FrameParser) (fuel : Nat), p.buf.length < fuel →
        Safe.nextFrame fuel p.buf = .ok (p.nextFrame.1, p.nextFrame.2.buf)) ∧
      ∀ buf buf', kFrameOverhead ≤ buf.length → Safe.turn buf = .ok (.again buf') →
        buf'.length < buf.length := by
  refine ⟨decodeCmd_ok, decodeTele_ok, udpRecvFrame_ok, fun p fuel hfuel => ?_,
    fun buf buf' hlen hturn => ?_⟩
  · rw [nextFrame_ok hfuel, nextFrameLoop_fuel hfuel (Nat.lt_succ_self _)]
    rfl
  · rw [turn_ok hlen] at hturn
    exact length_lt_of_turn_again (Except.ok.inj hturn)

end RovSdk.MemorySafety
