import RovSdk.GeneratorContext
import RovSdk.GoldenFrames

namespace RovSdk.HeaderConstants

open RovSdk.Results
open RovSdk.ProtocolBytes
open RovSdk.FrameFormat
open RovSdk.Packets
open RovSdk.ProtocolSchema
open RovSdk.PythonValues
open RovSdk.SchemaLayout
open RovSdk.SchemaValidator
open RovSdk.CodeGenerator
open RovSdk.FrameLayouts
open RovSdk.GeneratorContext
open RovSdk.GoldenFrames
open RovSdk.GoldenAgreement (layoutsOf cmdValues computeLayout_schemaFields)
open RovSdk.GoldenGenerator (caseFromInputs buildPayload)

def hexDigit (c : Char) : Option Nat :=
  if '0' ≤ c ∧ c ≤ '9' then some (c.toNat - '0'.toNat)
  else if 'A' ≤ c ∧ c ≤ 'F' then some (c.toNat - 'A'.toNat + 10)
  else none

def literal : List Char → Option Nat
  | '0' :: 'x' :: digits => digits.foldlM (fun n c => (hexDigit c).map fun d => 16 * n + d) 0
  | _ => none

/-- A `uint8_t` constant initialised with a value that it can hold. -/
def byteOf (n : Int) : Option UInt8 :=
  if 0 ≤ n ∧ n ≤ 255 then some (UInt8.ofNat n.toNat) else none

def byteConstant (text : List Char) : Option UInt8 := do
  byteOf (← literal text : Nat)

/-- `encodeFrame` with the constants of a header, for a payload of a stated size. -/
def headerFrame (header : CppHeader) (k : PacketType) (size : Int) (payload : List UInt8) :
    Option (List UInt8) := do
  let stx0 ← byteConstant header.kStx0
  let stx1 ← byteConstant header.kStx1
  let version ← byteConstant header.kProtocolVersion
  let len ← byteOf size
  let type ← byteConstant (cppType header k)
  let body := version :: len :: type :: payload
  return stx0 :: stx1 :: (body ++ bytesU16LE (crc16 body))

theorem hexDigit_digitChar : ∀ d < 16, hexDigit d.digitChar.toUpper = some d := by
  decide

theorem literal_pair {c d : Char} {m n : Nat} (hc : hexDigit c = some m)
    (hd : hexDigit d = some n) : literal ['0', 'x', c, d] = some (16 * m + n) := by
  simp [literal, hc, hd]

theorem literal_hexText {n : Nat} (hn : n < 256) {text : List Char}
    (h : hexText 2 (.int n) = .ok text) : literal text = some n := by
  have hpos : ¬((n : Int) < 0) := by omega
  simp only [hexText, PyVal.keyInt, if_neg hpos, Int.natAbs_natCast, Except.ok.injEq] at h
  by_cases hsmall : n < 16
  · rw [Nat.toDigits_of_lt_base hsmall] at h
    have htext : text = ['0', 'x', '0', n.digitChar.toUpper] := h.symm
    have hzero : hexDigit '0' = some 0 := rfl
    rw [htext, literal_pair hzero (hexDigit_digitChar n hsmall), Nat.mul_zero, Nat.zero_add]
  · rw [Nat.toDigits_of_base_le (by decide) (by omega),
      Nat.toDigits_of_lt_base (by omega)] at h
    have htext : text = ['0', 'x', (n / 16).digitChar.toUpper, (n % 16).digitChar.toUpper] :=
      h.symm
    rw [htext, literal_pair (hexDigit_digitChar (n / 16) (by omega))
      (hexDigit_digitChar (n % 16) (by omega)), Nat.div_add_mod]

theorem byteOf_eq_some {n : Int} {b : UInt8} : byteOf n = some b ↔ n = b.toNat := by
  have hlt := b.toNat_lt
  rw [byteOf]
  split_ifs with hrange
  · rw [Option.some.injEq, ← UInt8.toNat_inj, UInt8.toNat_ofNat']
    omega
  · exact iff_of_false (by simp) (by omega)

theorem byteConstant_hexText {v : PyVal} {b : UInt8} (hv : OneByte v b) {text : List Char}
    (h : hexText 2 v = .ok text) : byteConstant text = some b := by
  have htext : hexText 2 (.int b.toNat) = .ok text := by
    rw [← h, hexText, hexText, hv]
    rfl
  rw [byteConstant, literal_hexText b.toNat_lt htext]
  exact byteOf_eq_some.mpr rfl

/-- The frame of the reference encoder is the one a header's encoder builds where the
constants are its own and the size is that of the payload. -/
theorem headerFrame_eq_encodeFrame_iff {header : CppHeader} {k : PacketType}
    {stx0 stx1 version type : UInt8} {size : Int} {payload : List UInt8}
    (hstx0 : byteConstant header.kStx0 = some stx0)
    (hstx1 : byteConstant header.kStx1 = some stx1)
    (hversion : byteConstant header.kProtocolVersion = some version)
    (htype : byteConstant (cppType header k) = some type) (hlen : payload.length ≤ 255) :
    headerFrame header k size payload = some (encodeFrame payload type) ↔
      stx0 = kStx0 ∧ stx1 = kStx1 ∧ version = kProtocolVersion ∧ size = payload.length := by
  have hlength : (UInt8.ofNat payload.length).toNat = payload.length := by
    rw [UInt8.toNat_ofNat']
    omega
  constructor
  · intro h
    rcases hsize : byteOf size with _ | len
    · simp [headerFrame, hstx0, hstx1, hversion, hsize] at h
    · simp only [headerFrame, hstx0, hstx1, hversion, htype, hsize, encodeFrame_eq, frameBody,
        Option.bind_eq_bind, Option.bind_some, Option.pure_def, Option.some.injEq,
        List.cons_append, List.cons.injEq] at h
      obtain ⟨rfl, rfl, rfl, rfl, -⟩ := h
      exact ⟨rfl, rfl, rfl, by rw [byteOf_eq_some.mp hsize, hlength]⟩
  · rintro ⟨rfl, rfl, rfl, rfl⟩
    have hsize : byteOf payload.length = some (UInt8.ofNat payload.length) := by
      rw [byteOf_eq_some, hlength]
    simp only [headerFrame, hstx0, hstx1, hversion, htype, hsize, encodeFrame_eq, frameBody,
      Option.bind_eq_bind, Option.bind_some, Option.pure_def]

structure States (py : TextRuntime) (schema : PyVal) (k : PacketType) (version : UInt8)
    (stx : Int) (type : UInt8) : Prop where
  version_eq : ∃ v, valueAt schema ["version"] = .ok v ∧ OneByte v version
  stx_eq : ∃ v, valueAt schema ["frame", "stx"] = .ok v ∧ py.intOfStr v = .ok stx
  stx_range : 0 ≤ stx ∧ stx ≤ 0xFFFF
  type_eq : ∃ v, valueAt schema ["frames", packetName k, "type"] = .ok v ∧ OneByte v type

/-- The golden case of the inputs is the frame that an encoder with the constants of the
header builds around the payload, for a payload size. -/
def Reproduced (py : TextRuntime) (schema : PyVal) (header : CppHeader) (k : PacketType)
    (inputs : PyVal) (size : Int) (payload : List UInt8) : Prop :=
  ∀ arrayName notes, ∃ c,
    caseFromInputs py.toRuntime schema (packetName k) inputs arrayName notes = .ok c ∧
      headerFrame header k size payload = some c.expectedFrame

variable {py : TextRuntime} {schema frame inputs : PyVal} {header : CppHeader} {k : PacketType}
  {version type : UInt8} {stx : Int} {layout : List LayoutField}

theorem oneByte_unique {v : PyVal} {b c : UInt8} (hb : OneByte v b) (hc : OneByte v c) :
    b = c := by
  have h := Option.some.inj (hb.symm.trans hc)
  exact UInt8.toNat_inj.mp (by omega)

theorem exists_oneByte {n : Int} (hn : 0 ≤ n ∧ n ≤ 255) :
    ∃ b : UInt8, OneByte (.int n) b ∧ (b.toNat : Int) = n := by
  have hb : ((UInt8.ofNat n.toNat).toNat : Int) = n := by
    rw [UInt8.toNat_ofNat']
    omega
  exact ⟨UInt8.ofNat n.toNat, congrArg some hb.symm, hb⟩

theorem constants_of_states (hheader : renderCpp py schema = .ok header)
    (hstates : States py schema k version stx type) :
    (∃ stx0 stx1 : UInt8, byteConstant header.kStx0 = some stx0 ∧
      byteConstant header.kStx1 = some stx1 ∧ (stx0.toNat : Int) = stx / 256 ∧
      (stx1.toNat : Int) = stx % 256) ∧
      byteConstant header.kProtocolVersion = some version ∧
      byteConstant (cppType header k) = some type := by
  obtain ⟨ctx, hctx, htext0, htext1, hversionText, htypeText, -⟩ := renderCpp_ok hheader
  have hfrom := fromSchema_of_makeCtx hctx
  obtain ⟨frame, hframe, -, hframeType⟩ := hfrom.packet_eq k
  refine ⟨?_, ?_, ?_⟩
  · obtain ⟨v, stx', hv, hstx', hstx0, hstx1⟩ := hfrom.stx_eq
    obtain ⟨w, hw, hstx⟩ := hstates.stx_eq
    rw [valueAt_of_getItem hfrom.frame_eq, valueAt_of_getItem hv, valueAt_nil] at hw
    obtain rfl := Except.ok.inj hw
    obtain rfl := Except.ok.inj (hstx'.symm.trans hstx)
    have hrange := hstates.stx_range
    obtain ⟨stx0, hbyte0, heq0⟩ := exists_oneByte (n := ctx.stx0) (by omega)
    obtain ⟨stx1, hbyte1, heq1⟩ := exists_oneByte (n := ctx.stx1) (by omega)
    exact ⟨stx0, stx1, byteConstant_hexText hbyte0 htext0, byteConstant_hexText hbyte1 htext1,
      by omega, by omega⟩
  · obtain ⟨v, hv, hbyte⟩ := hstates.version_eq
    rw [valueAt_of_getItem hfrom.version_eq, valueAt_nil] at hv
    obtain rfl := Except.ok.inj hv
    exact byteConstant_hexText hbyte hversionText
  · obtain ⟨v, hv, hbyte⟩ := hstates.type_eq
    rw [valueAt_type, hframe, ok_bind, hframeType] at hv
    obtain rfl := Except.ok.inj hv
    exact byteConstant_hexText hbyte (htypeText k)

theorem reproduced_iff (hheader : renderCpp py schema = .ok header)
    (hstates : States py schema k version stx type)
    (hframe : frameOf schema (packetName k) = .ok frame)
    (hlayout : layoutOfFrame py.toRuntime frame = .ok layout) {payload : List UInt8}
    (hpayload : buildPayload py.toRuntime layout inputs = .ok payload) (size : Int) :
    Reproduced py schema header k inputs size payload ↔
      payload.length ≤ 255 ∧ version = 2 ∧ stx = 0xAA55 ∧ size = payload.length := by
  obtain ⟨⟨stx0, stx1, hstx0, hstx1, heq0, heq1⟩, hversion, htype⟩ :=
    constants_of_states hheader hstates
  obtain ⟨v, hv, hbyte⟩ := hstates.type_eq
  rw [valueAt_type, hframe, ok_bind] at hv
  have hrange := hstates.stx_range
  have hmark : stx0 = kStx0 ∧ stx1 = kStx1 ↔ stx = 0xAA55 := by
    rw [← UInt8.toNat_inj, ← UInt8.toNat_inj, show kStx0.toNat = 0xAA from rfl,
      show kStx1.toNat = 0x55 from rfl]
    omega
  have hiff : payload.length ≤ 255 →
      (headerFrame header k size payload = some (encodeFrame payload type) ↔
        version = 2 ∧ stx = 0xAA55 ∧ size = payload.length) := by
    intro hlen
    rw [headerFrame_eq_encodeFrame_iff hstx0 hstx1 hversion htype hlen, ← hmark]
    exact ⟨fun ⟨h0, h1, h2, h3⟩ => ⟨h2, ⟨h0, h1⟩, h3⟩, fun ⟨h2, ⟨h0, h1⟩, h3⟩ => ⟨h0, h1, h2, h3⟩⟩
  constructor
  · intro h
    obtain ⟨c, hc, heq⟩ := h "" ""
    obtain ⟨hlen, type', hbyte', hexpected⟩ :=
      (exists_case_iff hframe hlayout hpayload hv).mp ⟨c, hc, rfl⟩
    obtain rfl := oneByte_unique hbyte hbyte'
    rw [hexpected, hiff hlen] at heq
    exact ⟨hlen, heq⟩
  · rintro ⟨hlen, hagree⟩ arrayName notes
    obtain ⟨c, hc, hexpected⟩ := (exists_case_iff hframe hlayout hpayload hv).mpr
      ⟨hlen, type, hbyte, rfl⟩
    exact ⟨c, hc, by rw [hexpected, hiff hlen]; exact hagree⟩

/-- Golden frames follow the header generated from the same schema for version 2 and the
mark `0xAA55` only; the size that the header states is theirs where no count is below one. -/
theorem golden_follows_header_iff {data : PyVal} {fields : List PyVal}
    (haccepted : loadSchema data = .ok schema) (hheader : renderCpp py schema = .ok header)
    (hstates : States py schema k version stx type)
    (hframe : frameOf schema (packetName k) = .ok frame)
    (hfields : frame.getItem (.str "fields") = .ok (.list fields))
    (hlayout : computeLayout py.toRuntime fields = .ok layout)
    (hmatches : Matches layout inputs) :
    ∃ payload, buildPayload py.toRuntime layout inputs = .ok payload ∧
      (payload.length ≤ 255 →
        (Reproduced py schema header k inputs payload.length payload ↔
          version = 2 ∧ stx = 0xAA55)) ∧
      (cppPayloadSize header k ≤ 255 →
        (Reproduced py schema header k inputs (cppPayloadSize header k) payload ↔
          version = 2 ∧ stx = 0xAA55 ∧ ∀ field ∈ fields, ∀ c n,
            field.get (.str "count") (.int 1) = .ok c → py.int c = .ok n → 1 ≤ n)) := by
  obtain ⟨fields', names, hfields', hvalid⟩ := fields_of_loadSchema haccepted hframe
  obtain rfl := PyVal.list.inj (Except.ok.inj (hfields.symm.trans hfields'))
  have hof := layoutOf_of_computeLayout hvalid hlayout
  have hlayoutOf : layoutOfFrame py.toRuntime frame = .ok layout := by
    rw [layoutOfFrame_eq hfields, hlayout]
  obtain ⟨payload, hpayload, hlength⟩ := exists_buildPayload py.toRuntime hof.sized hmatches
  have hiff := reproduced_iff hheader hstates hframe hlayoutOf hpayload
  have hsize : cppPayloadSize header k = totalSize layout := by
    obtain ⟨ctx, hctx, -, -, -, -, hemitted⟩ := renderCpp_ok hheader
    rw [hemitted, ctxSize_eq hctx hframe hlayoutOf]
  refine ⟨payload, hpayload, fun hlen => ?_, fun hemitted => ?_⟩
  · rw [hiff]
    simp [hlen]
  · rw [hiff, ← one_le_count_iff hof.entries, ← totalSize_eq_iff hof.sized, hsize, hlength]
    constructor
    · rintro ⟨-, hversion, hstx, heq⟩
      exact ⟨hversion, hstx, heq⟩
    · rintro ⟨hversion, hstx, heq⟩
      exact ⟨by omega, hversion, hstx, heq⟩

theorem matches_cmdValues (p : CmdPacket) : Matches (layoutsOf 0 cmdFields) (cmdValues p) := by
  have hreserved : p.reserved.toList.length = 2 := p.reserved.length_toList
  have htail : p.reservedTail.toList.length = 16 := p.reservedTail.length_toList
  simp only [Matches, cmdFields, layoutsOf, List.forall_mem_cons]
  and_intros <;> first
    | exact ⟨_, rfl, .byte rfl (by decide) _⟩
    | exact ⟨_, rfl, .float rfl (by decide) _⟩
    | exact ⟨_, rfl, .bytes rfl (by decide) _ (by rw [hreserved]; rfl)⟩
    | exact ⟨_, rfl, .bytes rfl (by decide) _ (by rw [htail]; rfl)⟩
    | simp

theorem protocol_command_reproduced : ∃ header payload,
    renderCpp plainRuntime protocolYaml = .ok header ∧
      buildPayload plainRuntime.toRuntime (layoutsOf 0 cmdFields) (cmdValues {}) = .ok payload ∧
      Reproduced plainRuntime protocolYaml header .cmd (cmdValues {}) header.kCmdPayloadSize
        payload := by
  have haccepted : loadSchema protocolYaml = .ok protocolYaml := rfl
  have hstates : States plainRuntime protocolYaml .cmd 2 0xAA55 1 :=
    ⟨⟨_, rfl, rfl⟩, ⟨_, rfl, rfl⟩, by decide, _, rfl, rfl⟩
  obtain ⟨header, hheader, hsize⟩ : ∃ header, renderCpp plainRuntime protocolYaml = .ok header ∧
      header.kCmdPayloadSize = 52 := ⟨_, rfl, rfl⟩
  have hlayout := computeLayout_schemaFields plainRuntime.toRuntime .cmd
  have hcounts : ∀ f ∈ layoutsOf 0 cmdFields, 1 ≤ f.count := by decide
  obtain ⟨payload, hpayload, -, hiff⟩ := golden_follows_header_iff haccepted hheader hstates rfl
    rfl hlayout (matches_cmdValues {})
  have hle : header.kCmdPayloadSize ≤ 255 := by omega
  exact ⟨header, payload, hheader, hpayload, (hiff hle).mpr
    ⟨rfl, rfl, (one_le_count_iff (laidOut_of_computeLayoutFrom hlayout).1).mp hcounts⟩⟩

/-- The checked-in schema after a protocol bump. -/
def bumpedSchema : PyVal := schemaWith 3 cmdFields teleFields

/-- Its header states version 3; the golden frame still has version 2. -/
theorem bumped_version_not_followed : ∃ header payload c,
    loadSchema bumpedSchema = .ok bumpedSchema ∧
      renderCpp plainRuntime bumpedSchema = .ok header ∧
      byteConstant header.kProtocolVersion = some 3 ∧
      Matches (layoutsOf 0 cmdFields) (cmdValues {}) ∧
      buildPayload plainRuntime.toRuntime (layoutsOf 0 cmdFields) (cmdValues {}) = .ok payload ∧
      caseFromInputs plainRuntime.toRuntime bumpedSchema "CmdPacket" (cmdValues {}) "" "" = .ok c ∧
      c.expectedFrame[2]? = some 2 ∧
      headerFrame header .cmd payload.length payload ≠ some c.expectedFrame := by
  refine ⟨_, _, _, rfl, rfl, rfl, matches_cmdValues {}, rfl, rfl, rfl, fun h => ?_⟩
  have hversion := congrArg (Option.map fun frame => frame[2]?) h
  exact absurd hversion (by decide)

end RovSdk.HeaderConstants
