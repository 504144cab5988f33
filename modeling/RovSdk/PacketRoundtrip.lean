import RovSdk.FrameFormat
import RovSdk.Packets

namespace RovSdk.PacketRoundtrip

open RovSdk.ListSlices
open RovSdk.ProtocolBytes
open RovSdk.FrameFormat
open RovSdk.Packets

/-- A packet as a sequence of payload segments of fixed widths, with the reader that
takes its fields out of a frame. -/
structure PacketLayout (Pkt : Type) where
  type : UInt8
  widths : List Nat
  segments : Pkt → List (List UInt8)
  read : List UInt8 → Pkt
  size_le : widths.sum ≤ 255
  segments_widths : ∀ p, (segments p).map List.length = widths
  segments_injective : Function.Injective segments
  segments_read : ∀ {frame : List UInt8}, 5 + widths.sum ≤ frame.length →
    segments (read frame) = cuts frame 5 widths

namespace PacketLayout

variable {Pkt : Type} (L : PacketLayout Pkt)

def encode (p : Pkt) : List UInt8 := encodeFrame (L.segments p).flatten L.type

def decode (frame : List UInt8) : Option Pkt :=
  if !validateFrameHeader frame L.type L.widths.sum then none else some (L.read frame)

theorem length_flatten_segments (p : Pkt) :
    (L.segments p).flatten.length = L.widths.sum := by
  rw [List.length_flatten, L.segments_widths]

/-- Reading undoes nothing: the segments of what is read are those in the frame. -/
theorem eq_encode_read_append {s : List UInt8} (h : HoldsFrame s L.widths.sum)
    (htype : getU8 s 4 = L.type) :
    s = L.encode (L.read s) ++ s.drop (kFrameOverhead + L.widths.sum) := by
  have hfits := h.fits
  have hk := kFrameOverhead_eq
  rw [encode, L.segments_read (by omega), cuts_flatten, ← htype]
  exact h.eq_encodeFrame_append

theorem decode_eq_some_iff (s : List UInt8) (p : Pkt) :
    L.decode s = some p ↔ ∃ t, s = L.encode p ++ t := by
  have hread : ∀ {s}, validateFrameHeader s L.type L.widths.sum = true →
      s = L.encode (L.read s) ++ s.drop (kFrameOverhead + L.widths.sum) := by
    intro s hvalid
    obtain ⟨hholds, htype⟩ := validateFrameHeader_iff_holdsFrame.mp hvalid
    exact L.eq_encode_read_append hholds htype
  constructor
  · intro h
    rw [decode] at h
    split at h
    next => simp at h
    next hvalid =>
      obtain rfl := Option.some.inj h
      exact ⟨_, hread (by simpa using hvalid)⟩
  · rintro ⟨t, rfl⟩
    have hvalid : validateFrameHeader (L.encode p ++ t) L.type L.widths.sum = true :=
      (validateFrameHeader_iff L.size_le).mpr ⟨_, t, L.length_flatten_segments p, rfl⟩
    have hpayload := (encodeFrame_append_inj
      (by rw [L.length_flatten_segments, L.length_flatten_segments]) (hread hvalid)).1
    have hsegments : L.segments p = L.segments (L.read (L.encode p ++ t)) :=
      List.eq_iff_flatten_eq.mpr ⟨hpayload, by rw [L.segments_widths, L.segments_widths]⟩
    rw [decode, hvalid, ← L.segments_injective hsegments]
    rfl

end PacketLayout

theorem bytesF32LE_injective : Function.Injective bytesF32LE := by
  intro v w h
  have hread : ∀ bits, getF32LE (bytesF32LE bits) 0 = bits := fun bits =>
    getF32LE_of_slice (slice_self (bytesF32LE bits))
  rw [← hread v, ← hread w, h]

theorem flatMap_bytesF32LE_inj {n : Nat} {xs ys : Vector UInt32 n} :
    xs.toList.flatMap bytesF32LE = ys.toList.flatMap bytesF32LE ↔ xs = ys := by
  refine ⟨fun h => ?_, fun h => by rw [h]⟩
  rw [List.flatMap_def, List.flatMap_def] at h
  have hmap := List.eq_iff_flatten_eq.mpr ⟨h, by
    simp [Function.comp_def, List.map_const']⟩
  exact Vector.toList_inj.mp (bytesF32LE_injective.list_map hmap)

theorem flatMap_ofFn_getF32LE {s : List UInt8} {off n : Nat} (h : off + 4 * n ≤ s.length) :
    (List.ofFn fun i : Fin n => getF32LE s (off + 4 * i)).flatMap bytesF32LE =
      slice s off (4 * n) := by
  induction n generalizing off with
  | zero => simp [slice]
  | succ n ih =>
      have hrest : off + 4 + 4 * n ≤ s.length := by omega
      have htail := ih hrest
      rw [List.ofFn_succ, List.flatMap_cons,
        show slice s off (4 * (n + 1)) = slice s off 4 ++ slice s (off + 4) (4 * n) by
          rw [slice_append_slice, Nat.mul_succ, Nat.add_comm 4], ← htail]
      congr 1
      · exact bytesF32LE_getF32LE (by omega)
      · congr 2
        funext i
        rw [Fin.val_succ]
        congr 1
        omega

theorem foldl_putF32LE (out : List UInt8) (xs : List UInt32) :
    xs.foldl putF32LE out = out ++ xs.flatMap bytesF32LE := by
  induction xs generalizing out with
  | nil => simp
  | cons x xs ih => rw [List.foldl_cons, ih, putF32LE_eq, List.append_assoc, List.flatMap_cons]

def cmdSegments (p : CmdPacket) : List (List UInt8) :=
  [[p.mode], [p.armed], p.reserved.toList, bytesF32LE p.surge, bytesF32LE p.sway,
    bytesF32LE p.heave, bytesF32LE p.yaw, bytesF32LE p.targetDepth,
    bytesF32LE p.targetHeading, bytesF32LE p.targetNorth, bytesF32LE p.targetEast,
    p.reservedTail.toList]

def teleSegments (q : TelemetryPacket) : List (List UInt8) :=
  [bytesF32LE q.roll, bytesF32LE q.pitch, bytesF32LE q.heading, bytesF32LE q.yawRate,
    bytesF32LE q.depth, bytesF32LE q.altitude, bytesF32LE q.north, bytesF32LE q.east,
    bytesF32LE q.vn, bytesF32LE q.ve, bytesF32LE q.vd, bytesF32LE q.voltage,
    bytesF32LE q.current, bytesF32LE q.percent, bytesF32LE q.temperature,
    bytesF32LE q.waterTemp, bytesF32LE q.salinity, bytesF32LE q.pressureBar,
    bytesF32LE q.cableTension, q.thr.toList.flatMap bytesF32LE, [q.leak], [q.armed],
    [q.mode], [q.reserved], q.reservedTail.toList]

def cmdWidths : List Nat := [1, 1, 2, 4, 4, 4, 4, 4, 4, 4, 4, 16]

def teleWidths : List Nat :=
  [4, 4, 4, 4, 4, 4, 4, 4, 4, 4, 4, 4, 4, 4, 4, 4, 4, 4, 4, 32, 1, 1, 1, 1, 16]

theorem cmdSegments_readCmd {frame : List UInt8} (h : 5 + cmdWidths.sum ≤ frame.length) :
    cmdSegments (readCmd frame) = cuts frame 5 cmdWidths := by
  change 5 + 52 ≤ frame.length at h
  have hu8 : ∀ off < frame.length, [getU8 frame off] = slice frame off 1 := fun off hoff =>
    (slice_one hoff 0).symm
  have hf32 : ∀ off, off + 4 ≤ frame.length →
      bytesF32LE (getF32LE frame off) = slice frame off 4 := fun off hoff =>
    bytesF32LE_getF32LE hoff
  have hreserved : (readCmd frame).reserved.toList = slice frame (5 + 1 + 1) 2 := by
    rw [← slice_append_slice frame _ 1 1, ← hu8 _ (by omega), ← hu8 _ (by omega)]
    rfl
  have htail : (readCmd frame).reservedTail.toList = slice frame (5 + 36) 16 := by
    rw [← ofFn_getD (by omega) 0]
    exact Vector.toList_ofFn
  simp only [cmdSegments, cuts, cmdWidths, List.cons.injEq, and_true, hreserved, htail]
  refine ⟨hu8 _ (by omega), hu8 _ (by omega), trivial, ?_⟩
  and_intros <;> exact hf32 _ (by omega)

theorem teleSegments_readTele {frame : List UInt8}
    (h : 5 + teleWidths.sum ≤ frame.length) :
    teleSegments (readTele frame) = cuts frame 5 teleWidths := by
  change 5 + 128 ≤ frame.length at h
  have hu8 : ∀ off < frame.length, [getU8 frame off] = slice frame off 1 := fun off hoff =>
    (slice_one hoff 0).symm
  have hf32 : ∀ off, off + 4 ≤ frame.length →
      bytesF32LE (getF32LE frame off) = slice frame off 4 := fun off hoff =>
    bytesF32LE_getF32LE hoff
  have hthr : (readTele frame).thr.toList.flatMap bytesF32LE = slice frame (5 + 76) 32 := by
    rw [← flatMap_ofFn_getF32LE (n := 8) (by omega)]
    exact congrArg _ Vector.toList_ofFn
  have htail : (readTele frame).reservedTail.toList = slice frame (5 + 112) 16 := by
    rw [← ofFn_getD (by omega) 0]
    exact Vector.toList_ofFn
  simp only [teleSegments, cuts, teleWidths, List.cons.injEq, and_true, hthr, htail]
  and_intros <;> first | exact hf32 _ (by omega) | exact hu8 _ (by omega) | trivial

def cmdLayout : PacketLayout CmdPacket where
  type := kTypeCmd
  widths := cmdWidths
  segments := cmdSegments
  read := readCmd
  size_le := by decide
  segments_widths := fun p => by simp [cmdSegments, cmdWidths]
  segments_injective := by
    rintro ⟨⟩ ⟨⟩ h
    simpa [cmdSegments, bytesF32LE_injective.eq_iff, Vector.toList_inj] using h
  segments_read := cmdSegments_readCmd

def teleLayout : PacketLayout TelemetryPacket where
  type := kTypeTele
  widths := teleWidths
  segments := teleSegments
  read := readTele
  size_le := by decide
  segments_widths := fun q => by
    have hthr : (q.thr.toList.flatMap bytesF32LE).length = kNumThrusters * 4 := by simp
    simp only [teleSegments, teleWidths, List.map_cons, List.map_nil, hthr,
      length_bytesF32LE, Vector.length_toList]
    rfl
  segments_injective := by
    rintro ⟨⟩ ⟨⟩ h
    simpa [teleSegments, bytesF32LE_injective.eq_iff, flatMap_bytesF32LE_inj,
      Vector.toList_inj] using h
  segments_read := teleSegments_readTele

theorem encodeCmd_eq (p : CmdPacket) : encodeCmd p = cmdLayout.encode p := by
  simp [encodeCmd, PacketLayout.encode, cmdLayout, cmdSegments]

theorem encodeTele_eq (q : TelemetryPacket) : encodeTele q = teleLayout.encode q := by
  simp only [encodeTele, foldl_putF32LE]
  simp [PacketLayout.encode, teleLayout, teleSegments]

@[simp] theorem length_encodeCmd (p : CmdPacket) :
    (encodeCmd p).length = kFrameOverhead + kCmdPayloadSize := by
  rw [encodeCmd_eq, PacketLayout.encode, length_encodeFrame,
    PacketLayout.length_flatten_segments]
  rfl

@[simp] theorem length_encodeTele (q : TelemetryPacket) :
    (encodeTele q).length = kFrameOverhead + kTelePayloadSize := by
  rw [encodeTele_eq, PacketLayout.encode, length_encodeFrame,
    PacketLayout.length_flatten_segments]
  rfl

def layout : (k : PacketType) → PacketLayout k.Pkt
  | .cmd => cmdLayout
  | .tele => teleLayout

theorem encode_eq_layout {k : PacketType} (p : k.Pkt) : k.encode p = (layout k).encode p := by
  cases k with
  | cmd => exact encodeCmd_eq p
  | tele => exact encodeTele_eq p

theorem decode_eq_layout (k : PacketType) (s : List UInt8) :
    k.decode s = (layout k).decode s := by
  cases k <;> rfl

theorem layout_type (k : PacketType) : (layout k).type = k.type := by
  cases k <;> rfl

theorem layout_size (k : PacketType) : (layout k).widths.sum = k.payloadSize := by
  cases k <;> rfl

theorem decode_eq_some_iff {k : PacketType} {s : List UInt8} {p : k.Pkt} :
    k.decode s = some p ↔ ∃ t, s = k.encode p ++ t := by
  rw [decode_eq_layout, encode_eq_layout]
  exact (layout k).decode_eq_some_iff s p

theorem decode_encode {k : PacketType} (p : k.Pkt) : k.decode (k.encode p) = some p :=
  decode_eq_some_iff.mpr ⟨[], by simp⟩

theorem encode_eq_encodeFrame {k : PacketType} (p : k.Pkt) :
    ∃ payload, payload.length = k.payloadSize ∧ payload.length ≤ 255 ∧
      k.encode p = encodeFrame payload k.type := by
  have hlen := (layout k).length_flatten_segments p
  have hle := (layout k).size_le
  exact ⟨((layout k).segments p).flatten, by rw [hlen, layout_size], by omega,
    by rw [encode_eq_layout, PacketLayout.encode, layout_type]⟩

theorem validFrame_encode {k : PacketType} (p : k.Pkt) : ValidFrame (k.encode p) := by
  obtain ⟨payload, -, hle, hencode⟩ := encode_eq_encodeFrame p
  exact ⟨payload, k.type, hle, hencode⟩

/-- The decoders accept the image of the encoders, followed by anything, and reject
every other byte string; the part they look at has a fixed length. -/
theorem decoders_accept_encoder_image :
    (∀ s p, decodeCmd s = some p ↔ ∃ t, s = encodeCmd p ++ t) ∧
      (∀ s q, decodeTele s = some q ↔ ∃ t, s = encodeTele q ++ t) ∧
      (∀ p, (encodeCmd p).length = 59) ∧ ∀ q, (encodeTele q).length = 135 :=
  ⟨fun _ _ => decode_eq_some_iff (k := .cmd), fun _ _ => decode_eq_some_iff (k := .tele),
    length_encodeCmd, length_encodeTele⟩

end RovSdk.PacketRoundtrip
