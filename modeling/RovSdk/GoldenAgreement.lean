import RovSdk.GoldenGenerator
import RovSdk.PacketRoundtrip
import RovSdk.ProtocolSchema

namespace RovSdk.GoldenAgreement

open RovSdk.ByteWords
open RovSdk.ListSlices
open RovSdk.ProtocolBytes
open RovSdk.FrameFormat
open RovSdk.Packets
open RovSdk.PacketRoundtrip
open RovSdk.PythonValues
open RovSdk.SchemaLayout
open RovSdk.GoldenGenerator (packField packF32 buildPayload buildFrame)
open RovSdk.ProtocolSchema

theorem crcBit_toNat (crc : UInt16) : (crcBit crc).toNat = GoldenGenerator.crcBit crc.toNat := by
  have hand : (crc &&& 1 ≠ 0) ↔ (crc.toNat &&& 1 ≠ 0) := by
    rw [Ne, ← UInt16.toNat_inj, UInt16.toNat_and]
    rfl
  rw [crcBit, GoldenGenerator.crcBit]
  by_cases hbit : crc &&& 1 ≠ 0
  · rw [if_pos hbit, if_pos (hand.mp hbit), UInt16.toNat_xor, UInt16.toNat_shiftRight]
    rfl
  · rw [if_neg hbit, if_neg fun h => hbit (hand.mpr h), UInt16.toNat_shiftRight]
    rfl

theorem crcByte_toNat (crc : UInt16) (byte : UInt8) :
    (crcByte crc byte).toNat = GoldenGenerator.crcByte crc.toNat byte := by
  rw [crcByte, GoldenGenerator.crcByte, ← UInt8.toNat_toUInt16, ← UInt16.toNat_xor]
  exact Function.Semiconj.iterate_right (f := UInt16.toNat) crcBit_toNat 8 _

/-- The two CRC loops agree: the register of the wrapping one never needs to wrap. -/
theorem crc16_toNat (data : List UInt8) : (crc16 data).toNat = GoldenGenerator.crc16 data := by
  have hfold : ∀ (data : List UInt8) (crc : UInt16),
      (data.foldl crcByte crc).toNat = data.foldl GoldenGenerator.crcByte crc.toNat := by
    intro data
    induction data with
    | nil => exact fun crc => rfl
    | cons b data ih =>
        intro crc
        rw [List.foldl_cons, List.foldl_cons, ih, crcByte_toNat]
  have hlt := (crc16 data).toNat_lt
  rw [GoldenGenerator.crc16, show (0xFFFF : Nat) = (0xFFFF : UInt16).toNat from rfl, ← hfold,
    show (0xFFFF : UInt16).toNat = 2 ^ 16 - 1 from rfl, Nat.and_two_pow_sub_one_eq_mod,
    Nat.mod_eq_of_lt]
  · rfl
  · exact hlt

theorem ofNat_toNat_and (v : UInt16) : UInt8.ofNat (v.toNat &&& 0xFF) = lowByte v := by
  apply UInt8.toNat_inj.mp
  rw [lowByte_toNat, UInt8.toNat_ofNat', show (0xFF : Nat) = 2 ^ 8 - 1 from rfl,
    Nat.and_two_pow_sub_one_eq_mod, Nat.mod_mod]

theorem ofNat_toNat_shiftRight_and (v : UInt16) :
    UInt8.ofNat ((v.toNat >>> 8) &&& 0xFF) = highByte v := by
  have hlt := v.toNat_lt
  apply UInt8.toNat_inj.mp
  rw [highByte_toNat, UInt8.toNat_ofNat', show (0xFF : Nat) = 2 ^ 8 - 1 from rfl,
    Nat.and_two_pow_sub_one_eq_mod, Nat.mod_mod, Nat.shiftRight_eq_div_pow]
  omega

theorem toNat_toUInt8_shiftRight (bits : UInt32) {k : Nat} (hk : k < 32) :
    (bits >>> UInt32.ofNat k).toUInt8.toNat = bits.toNat / 2 ^ k % 256 := by
  have hshift : (UInt32.ofNat k).toNat % 32 = k := by
    rw [UInt32.toNat_ofNat']
    omega
  rw [UInt32.toNat_toUInt8, UInt32.toNat_shiftRight, hshift, Nat.shiftRight_eq_div_pow]

theorem packF32_eq (bits : UInt32) : packF32 bits = bytesF32LE bits := by
  have hbytes : packF32 bits = [(bits >>> UInt32.ofNat 0).toUInt8,
      (bits >>> UInt32.ofNat 8).toUInt8, (bits >>> UInt32.ofNat 16).toUInt8,
      (bits >>> UInt32.ofNat 24).toUInt8] := rfl
  have hsplit : bytesF32LE bits = [lowByte (lowHalf bits), highByte (lowHalf bits),
      lowByte (highHalf bits), highByte (highHalf bits)] := rfl
  have hlt := bits.toNat_lt
  rw [hbytes, hsplit]
  congr 1
  · apply UInt8.toNat_inj.mp
    rw [toNat_toUInt8_shiftRight bits (by omega), lowByte_toNat, lowHalf_toNat]
    omega
  congr 1
  · apply UInt8.toNat_inj.mp
    rw [toNat_toUInt8_shiftRight bits (by omega), highByte_toNat, lowHalf_toNat]
    omega
  congr 1
  · apply UInt8.toNat_inj.mp
    rw [toNat_toUInt8_shiftRight bits (by omega), lowByte_toNat, highHalf_toNat]
    omega
  congr 1
  · apply UInt8.toNat_inj.mp
    rw [toNat_toUInt8_shiftRight bits (by omega), highByte_toNat, highHalf_toNat]
    omega

def layoutOf (offset : Int) (e : FieldEntry) : LayoutField :=
  let elem : Int := if e.type = "u8" then 1 else 4
  let count : Int := (e.count.getD 1 : Nat)
  { name := .str e.name, type := .str e.type, count := count, elementSize := elem,
    size := elem * count, offset := offset, unit := .str e.unit, range := e.range,
    notes := .str e.notes }

def layoutsOf : Int → List FieldEntry → List LayoutField
  | _, [] => []
  | offset, e :: entries =>
      layoutOf offset e :: layoutsOf (offset + (layoutOf offset e).size) entries

def Typed (e : FieldEntry) : Prop := e.type = "u8" ∨ e.type = "f32"

theorem layoutField_toPy (py : Runtime) (offset : Int) {e : FieldEntry} (h : Typed e) :
    layoutField py offset e.toPy = .ok (layoutOf offset e) := by
  obtain ⟨name, type, unit, range, notes, count⟩ := e
  rcases h with rfl | rfl <;> rcases count with _ | n <;>
    simp [layoutField, layoutOf, FieldEntry.toPy, PyVal.getItem, PyVal.get, PyVal.lookup,
      PyVal.sameKey, PyVal.hashable, typeSize, Runtime.int, bind, Except.bind, pure,
      Except.pure]

theorem computeLayoutFrom_toPy (py : Runtime) (offset : Int) {entries : List FieldEntry}
    (h : ∀ e ∈ entries, Typed e) :
    computeLayoutFrom py offset (entries.map FieldEntry.toPy) =
      .ok (layoutsOf offset entries) := by
  induction entries generalizing offset with
  | nil => rfl
  | cons e entries ih =>
      obtain ⟨he, hrest⟩ := List.forall_mem_cons.mp h
      rw [List.map_cons, computeLayoutFrom, layoutField_toPy py offset he]
      simp only [bind, Except.bind, ih _ hrest]
      rfl

def byteVal (b : UInt8) : PyVal := .int b.toNat

def bytesVal (bs : List UInt8) : PyVal := .list (bs.map byteVal)

def floatsVal (ws : List UInt32) : PyVal := .list (ws.map .float)

theorem packU8_byteVal (b : UInt8) : (byteVal b).packU8 = .ok b := by
  have hlt := b.toNat_lt
  rw [PyVal.packU8, byteVal]
  simp only [PyVal.keyInt]
  rw [if_pos (by omega), Int.toNat_natCast, UInt8.ofNat_toNat]

theorem mapM_map_ok {α β γ : Type} {f : β → Except PyError γ} {g : α → β} {h : α → γ}
    (hf : ∀ a, f (g a) = .ok (h a)) (xs : List α) :
    (xs.map g).mapM f = .ok (xs.map h) := by
  induction xs with
  | nil => rfl
  | cons x xs ih =>
      rw [List.map_cons, List.mapM_cons, hf]
      simp only [bind, Except.bind, ih]
      rfl

/-- The field packs to these bytes wherever it is laid out. -/
structure Packs (py : Runtime) (values : PyVal) (e : FieldEntry) (seg : List UInt8) :
    Prop where
  bytes : ∀ offset, packField py values (layoutOf offset e) = .ok seg
  size : ∀ offset, (layoutOf offset e).size = seg.length

section Packs

variable (py : Runtime) {values : PyVal} {e : FieldEntry}

theorem packField_u8 {f : LayoutField} {b : UInt8} (htype : f.type = .str "u8")
    (hone : ¬f.count > 1) (hraw : values.getItem f.name = .ok (byteVal b)) :
    packField py values f = .ok [b] := by
  have hlt := b.toNat_lt
  have hmod : UInt8.ofNat ((b.toNat : Int) % 256).toNat = b := by
    rw [Int.emod_eq_of_lt (by omega) (by omega), Int.toNat_natCast, UInt8.ofNat_toNat]
  have hu8 : (PyVal.str "u8").sameKey (.str "u8") = true := rfl
  rw [packField, htype, if_pos hu8, hraw]
  simp only [bind, Except.bind, if_neg hone, Runtime.int, byteVal, hmod]
  rfl

theorem packField_u8s {f : LayoutField} {bs : List UInt8} (htype : f.type = .str "u8")
    (hcount : f.count = bs.length) (hlen : 1 < bs.length)
    (hraw : values.getItem f.name = .ok (bytesVal bs)) : packField py values f = .ok bs := by
  have hpack : (bs.map byteVal).mapM PyVal.packU8 = .ok bs := by
    rw [mapM_map_ok packU8_byteVal, List.map_id']
  have hu8 : (PyVal.str "u8").sameKey (.str "u8") = true := rfl
  have hmany : f.count > 1 := by omega
  have hitems : ¬((bs.map byteVal).length : Int) ≠ f.count := by
    rw [List.length_map, hcount]
    exact not_not_intro rfl
  rw [packField, htype, if_pos hu8, hraw]
  simp only [bind, Except.bind, if_pos hmany, bytesVal, PyVal.items, if_neg hitems, hpack]

theorem packField_f32 {f : LayoutField} {bits : UInt32} (htype : f.type = .str "f32")
    (hone : ¬f.count > 1) (hraw : values.getItem f.name = .ok (.float bits)) :
    packField py values f = .ok (bytesF32LE bits) := by
  have hu8 : ¬(PyVal.str "f32").sameKey (.str "u8") = true := by decide
  have hf32 : (PyVal.str "f32").sameKey (.str "f32") = true := rfl
  rw [packField, htype, if_neg hu8, if_pos hf32, hraw]
  simp only [bind, Except.bind, if_neg hone, Runtime.f32, packF32_eq]
  rfl

theorem packField_f32s {f : LayoutField} {ws : List UInt32} (htype : f.type = .str "f32")
    (hcount : f.count = ws.length) (hlen : 1 < ws.length)
    (hraw : values.getItem f.name = .ok (floatsVal ws)) :
    packField py values f = .ok (ws.flatMap bytesF32LE) := by
  have hbits : ∀ bits, py.packF32 (.float bits) = .ok bits := fun _ => rfl
  have hpack : (ws.map PyVal.float).mapM py.packF32 = .ok ws := by
    rw [mapM_map_ok hbits, List.map_id']
  have hwords : packF32 = bytesF32LE := funext packF32_eq
  have hu8 : ¬(PyVal.str "f32").sameKey (.str "u8") = true := by decide
  have hf32 : (PyVal.str "f32").sameKey (.str "f32") = true := rfl
  have hmany : f.count > 1 := by omega
  have hitems : ¬((ws.map PyVal.float).length : Int) ≠ f.count := by
    rw [List.length_map, hcount]
    exact not_not_intro rfl
  rw [packField, htype, if_neg hu8, if_pos hf32, hraw]
  simp only [bind, Except.bind, if_pos hmany, floatsVal, PyVal.items, if_neg hitems, hpack,
    hwords]
  rfl

theorem packs_u8 {b : UInt8} (htype : e.type = "u8") (hcount : e.count.getD 1 = 1)
    (hraw : values.getItem (.str e.name) = .ok (byteVal b)) : Packs py values e [b] :=
  ⟨fun offset => packField_u8 py (by rw [layoutOf, htype]) (by simp [layoutOf, hcount]) hraw,
    fun offset => by simp [layoutOf, htype, hcount]⟩

theorem packs_u8s {bs : List UInt8} (htype : e.type = "u8")
    (hcount : e.count.getD 1 = bs.length) (hlen : 1 < bs.length)
    (hraw : values.getItem (.str e.name) = .ok (bytesVal bs)) : Packs py values e bs :=
  ⟨fun offset => packField_u8s py (by rw [layoutOf, htype]) (by rw [layoutOf, hcount]) hlen hraw,
    fun offset => by simp [layoutOf, htype, hcount]⟩

theorem packs_f32 {bits : UInt32} (htype : e.type = "f32") (hcount : e.count.getD 1 = 1)
    (hraw : values.getItem (.str e.name) = .ok (.float bits)) :
    Packs py values e (bytesF32LE bits) :=
  ⟨fun offset => packField_f32 py (by rw [layoutOf, htype]) (by simp [layoutOf, hcount]) hraw,
    fun offset => by simp [layoutOf, htype, hcount]⟩

theorem packs_f32s {ws : List UInt32} (htype : e.type = "f32")
    (hcount : e.count.getD 1 = ws.length) (hlen : 1 < ws.length)
    (hraw : values.getItem (.str e.name) = .ok (floatsVal ws)) :
    Packs py values e (ws.flatMap bytesF32LE) :=
  ⟨fun offset => packField_f32s py (by rw [layoutOf, htype]) (by rw [layoutOf, hcount]) hlen hraw,
    fun offset => by simp [layoutOf, htype, hcount, Int.mul_comm]⟩

end Packs

/-- The fields of a packet by name, as the generator takes them. -/
def cmdValues (p : CmdPacket) : PyVal :=
  .dict [(.str "mode", byteVal p.mode), (.str "armed", byteVal p.armed),
    (.str "reserved", bytesVal p.reserved.toList), (.str "surge", .float p.surge),
    (.str "sway", .float p.sway), (.str "heave", .float p.heave), (.str "yaw", .float p.yaw),
    (.str "target_depth", .float p.targetDepth), (.str "target_heading", .float p.targetHeading),
    (.str "target_north", .float p.targetNorth), (.str "target_east", .float p.targetEast),
    (.str "reserved_tail", bytesVal p.reservedTail.toList)]

def teleValues (q : TelemetryPacket) : PyVal :=
  .dict [(.str "roll", .float q.roll), (.str "pitch", .float q.pitch),
    (.str "heading", .float q.heading), (.str "yaw_rate", .float q.yawRate),
    (.str "depth", .float q.depth), (.str "altitude", .float q.altitude),
    (.str "north", .float q.north), (.str "east", .float q.east), (.str "vn", .float q.vn),
    (.str "ve", .float q.ve), (.str "vd", .float q.vd), (.str "voltage", .float q.voltage),
    (.str "current", .float q.current), (.str "percent", .float q.percent),
    (.str "temperature", .float q.temperature), (.str "water_temp", .float q.waterTemp),
    (.str "salinity", .float q.salinity), (.str "pressure_bar", .float q.pressureBar),
    (.str "cable_tension", .float q.cableTension), (.str "thr", floatsVal q.thr.toList),
    (.str "leak", byteVal q.leak), (.str "armed", byteVal q.armed),
    (.str "mode", byteVal q.mode), (.str "reserved", byteVal q.reserved),
    (.str "reserved_tail", bytesVal q.reservedTail.toList)]

theorem cmd_packs (py : Runtime) (p : CmdPacket) :
    List.Forall₂ (Packs py (cmdValues p)) cmdFields (cmdSegments p) := by
  have hreserved : p.reserved.toList.length = 2 := p.reserved.length_toList
  have htail : p.reservedTail.toList.length = 16 := p.reservedTail.length_toList
  simp only [cmdFields, cmdSegments, List.forall₂_cons, List.forall₂_nil_left_iff, and_true]
  and_intros <;> first
    | exact packs_u8 py rfl rfl rfl
    | exact packs_f32 py rfl rfl rfl
    | exact packs_u8s py rfl hreserved.symm (by omega) rfl
    | exact packs_u8s py rfl htail.symm (by omega) rfl

theorem tele_packs (py : Runtime) (q : TelemetryPacket) :
    List.Forall₂ (Packs py (teleValues q)) teleFields (teleSegments q) := by
  have hthr : q.thr.toList.length = 8 := q.thr.length_toList
  have htail : q.reservedTail.toList.length = 16 := q.reservedTail.length_toList
  simp only [teleFields, teleSegments, List.forall₂_cons, List.forall₂_nil_left_iff, and_true]
  and_intros <;> first
    | exact packs_u8 py rfl rfl rfl
    | exact packs_f32 py rfl rfl rfl
    | exact packs_u8s py rfl htail.symm (by omega) rfl
    | exact packs_f32s py rfl hthr.symm (by omega) rfl

section Reference

variable {py : Runtime} {values : PyVal} {entries : List FieldEntry}
  {segs : List (List UInt8)}

theorem mapM_packField (h : List.Forall₂ (Packs py values) entries segs) (offset : Int) :
    (layoutsOf offset entries).mapM (packField py values) = .ok segs := by
  induction h generalizing offset with
  | nil => rfl
  | cons hfield _ ih =>
      rw [layoutsOf, List.mapM_cons, hfield.bytes]
      simp only [bind, Except.bind, ih]
      rfl

theorem slice_of_mem_layoutsOf (h : List.Forall₂ (Packs py values) entries segs)
    {before after : List UInt8} {c offset : Nat} (hbefore : before.length = c + offset)
    {f : LayoutField} (hf : f ∈ layoutsOf offset entries) :
    ∃ bytes, packField py values f = .ok bytes ∧
      slice (before ++ (segs.flatten ++ after)) (c + f.offset.toNat) f.size.toNat =
        bytes := by
  induction h generalizing before offset with
  | nil => simp [layoutsOf] at hf
  | @cons e seg entries segs hfield _ ih =>
      rw [layoutsOf, List.mem_cons] at hf
      rw [List.flatten_cons, List.append_assoc]
      rcases hf with rfl | hf
      · refine ⟨seg, hfield.bytes _, slice_middle ?_ ?_⟩
        · simp [layoutOf, hbefore]
        · rw [hfield.size, Int.toNat_natCast]
      · rw [hfield.size, ← Int.natCast_add] at hf
        rw [← List.append_assoc]
        exact ih (by rw [List.length_append, hbefore, Nat.add_assoc]) hf

theorem toByte_int {n : Nat} (hn : n < 256) :
    (PyVal.int n).toByte = .ok (UInt8.ofNat n) := by
  rw [PyVal.toByte]
  simp only [PyVal.keyInt]
  rw [if_pos (by omega), Int.toNat_natCast]

theorem buildFrame_eq {payload : List UInt8} {frameType : PyVal} {type : UInt8}
    (hlen : payload.length ≤ 255) (htype : frameType.toByte = .ok type) :
    buildFrame payload frameType = .ok (encodeFrame payload type) := by
  have hlength := toByte_int (show payload.length < 256 by omega)
  have hstx0 : (PyVal.int 0xAA).toByte = .ok kStx0 := rfl
  have hstx1 : (PyVal.int 0x55).toByte = .ok kStx1 := rfl
  have hversion : (PyVal.int 0x02).toByte = .ok kProtocolVersion := rfl
  have hcrc : GoldenGenerator.crc16
      ([kProtocolVersion, UInt8.ofNat payload.length, type] ++ payload) =
        (crc16 (frameBody payload type)).toNat := (crc16_toNat _).symm
  simp only [buildFrame, List.mapM_cons, List.mapM_nil, hstx0, hstx1, hversion, hlength,
    htype, bind, Except.bind, pure, Except.pure, hcrc, ofNat_toNat_and, encodeFrame_eq,
    ofNat_toNat_shiftRight_and]
  rfl

end Reference

/-- The reference encoder on the fields of the schema and the values of a packet. -/
def reference (py : Runtime) (fields : List FieldEntry) (frameType values : PyVal) :
    Except PyError (List UInt8) := do
  let layout ← computeLayout py (fields.map FieldEntry.toPy)
  let payload ← buildPayload py layout values
  buildFrame payload frameType

def schemaFields : PacketType → List FieldEntry
  | .cmd => cmdFields
  | .tele => teleFields

def frameType : PacketType → PyVal
  | .cmd => cmdType
  | .tele => teleType

def headerOffsets : PacketType → List (String × Nat)
  | .cmd => kCmdPacketOffsets
  | .tele => kTelemetryPacketOffsets

def valuesOf : (k : PacketType) → k.Pkt → PyVal
  | .cmd => cmdValues
  | .tele => teleValues

theorem packs_schemaFields (py : Runtime) (k : PacketType) (p : k.Pkt) :
    List.Forall₂ (Packs py (valuesOf k p)) (schemaFields k) ((layout k).segments p) := by
  cases k with
  | cmd => exact cmd_packs py p
  | tele => exact tele_packs py p

theorem computeLayout_schemaFields (py : Runtime) (k : PacketType) :
    computeLayout py ((schemaFields k).map FieldEntry.toPy) =
      .ok (layoutsOf 0 (schemaFields k)) := by
  refine computeLayoutFrom_toPy py 0 ?_
  cases k <;> simp [schemaFields, cmdFields, teleFields, Typed]

/-- Every packet is encoded in C++ as the reference encoder encodes it from the schema,
and every field's bytes stand in the frame at offset 5 plus the header's constant. -/
theorem encoder_matches_reference (py : Runtime) (k : PacketType) (p : k.Pkt) :
    reference py (schemaFields k) (frameType k) (valuesOf k p) = .ok (k.encode p) ∧
      ∃ fields, computeLayout py ((schemaFields k).map FieldEntry.toPy) = .ok fields ∧
        fields.map (fun f => (f.name, f.offset)) =
          (headerOffsets k).map (fun c => (.str c.1, (c.2 : Int))) ∧
        ∀ f ∈ fields, ∃ bytes, packField py (valuesOf k p) f = .ok bytes ∧
          slice (k.encode p) (5 + f.offset.toNat) f.size.toNat = bytes := by
  have hpacks := packs_schemaFields py k p
  have hencode := encode_eq_layout p
  have hlen : ((layout k).segments p).flatten.length ≤ 255 := by
    rw [PacketLayout.length_flatten_segments]
    exact (layout k).size_le
  refine ⟨?_, layoutsOf 0 (schemaFields k), computeLayout_schemaFields py k, ?_, ?_⟩
  · have htype : (frameType k).toByte = .ok k.type := by cases k <;> rfl
    rw [reference, computeLayout_schemaFields]
    simp only [buildPayload, bind, Except.bind, mapM_packField hpacks, pure, Except.pure]
    rw [hencode, PacketLayout.encode, layout_type, buildFrame_eq hlen htype]
  · cases k <;> rfl
  · intro f hf
    rw [hencode, PacketLayout.encode, encodeFrame_eq]
    have hheader : [kStx0, kStx1, kProtocolVersion,
        ((layout k).segments p).flatten.length.toUInt8, (layout k).type].length = 5 + 0 := rfl
    exact slice_of_mem_layoutsOf hpacks hheader hf

end RovSdk.GoldenAgreement
