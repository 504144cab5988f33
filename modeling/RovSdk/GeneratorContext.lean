import RovSdk.CodeGenerator
import RovSdk.Packets

namespace RovSdk.GeneratorContext

open RovSdk.Results
open RovSdk.PythonValues
open RovSdk.SchemaLayout
open RovSdk.SchemaValidator
open RovSdk.CodeGenerator
open RovSdk.Packets

variable {py : TextRuntime} {schema : PyVal} {ctx : Ctx}

/-- `d[a][b]…`. -/
def valueAt (d : PyVal) (path : List String) : Except PyError PyVal :=
  path.foldlM (fun d key => d.getItem (.str key)) d

theorem valueAt_cons (d : PyVal) (key : String) (path : List String) :
    valueAt d (key :: path) = (do valueAt (← d.getItem (.str key)) path) :=
  List.foldlM_cons

theorem valueAt_nil (d : PyVal) : valueAt d [] = .ok d := rfl

theorem valueAt_frames (schema : PyVal) (frameName : String) :
    valueAt schema ["frames", frameName] = frameOf schema frameName := by
  simp only [valueAt, List.foldlM_cons, List.foldlM_nil, bind_pure]
  rfl

theorem valueAt_type (schema : PyVal) (frameName : String) :
    valueAt schema ["frames", frameName, "type"] =
      (do (← frameOf schema frameName).getItem (.str "type")) := by
  simp only [valueAt, frameOf, List.foldlM_cons, List.foldlM_nil, bind_pure, bind_assoc]

theorem valueAt_of_getItem {d w : PyVal} {key : String} (h : d.getItem (.str key) = .ok w)
    (path : List String) : valueAt d (key :: path) = valueAt w path := by
  rw [valueAt_cons, h, ok_bind]

def packetName : PacketType → String
  | .cmd => "CmdPacket"
  | .tele => "TelemetryPacket"

def ctxFields (ctx : Ctx) : PacketType → List LayoutField
  | .cmd => ctx.cmdFields
  | .tele => ctx.teleFields

def ctxSize (ctx : Ctx) : PacketType → Int
  | .cmd => ctx.cmdSize
  | .tele => ctx.teleSize

def ctxType (ctx : Ctx) : PacketType → PyVal
  | .cmd => ctx.typeCmd
  | .tele => ctx.typeTele

def cppPayloadSize (header : CppHeader) : PacketType → Int
  | .cmd => header.kCmdPayloadSize
  | .tele => header.kTelePayloadSize

def cppType (header : CppHeader) : PacketType → List Char
  | .cmd => header.kTypeCmd
  | .tele => header.kTypeTele

/-- The struct of the C header for a frame, and the payload size stated beside it. -/
def cStruct (header : CHeader) : PacketType → List Member
  | .cmd => header.cmdPacket
  | .tele => header.telemetryPacket

def cPayloadSize (header : CHeader) : PacketType → Int
  | .cmd => header.ouCmdPayloadSize
  | .tele => header.ouTelePayloadSize

structure FromSchema (py : TextRuntime) (schema : PyVal) (ctx : Ctx) : Prop where
  version_eq : schema.getItem (.str "version") = .ok ctx.version
  frame_eq : schema.getItem (.str "frame") = .ok ctx.frame
  stx_eq : ∃ v stx, ctx.frame.getItem (.str "stx") = .ok v ∧ py.intOfStr v = .ok stx ∧
    ctx.stx0 = stx / 256 % 256 ∧ ctx.stx1 = stx % 256
  modes_eq : ∃ enums mode, schema.getItem (.str "enums") = .ok enums ∧
    enums.getItem (.str "Mode") = .ok mode ∧ mode.getItem (.str "values") = .ok ctx.modeValues
  packet_eq : ∀ k, ∃ frame, frameOf schema (packetName k) = .ok frame ∧
    layoutOfFrame py.toRuntime frame = .ok (ctxFields ctx k) ∧
    frame.getItem (.str "type") = .ok (ctxType ctx k)
  size_eq : ∀ k, ctxSize ctx k = totalSize (ctxFields ctx k)

theorem fromSchema_of_makeCtx (h : makeCtx py schema = .ok ctx) : FromSchema py schema ctx := by
  simp only [makeCtx, bind_eq_ok, pure_eq_ok] at h
  obtain ⟨frameMeta, hframe, cmd, hcmd, tele, htele, cmdFields, hcmdFields, teleFields,
    hteleFields, v, hv, stx, hstx, enums, henums, mode, hmode, modeValues, hvalues, version,
    hversion, typeCmd, htypeCmd, typeTele, htypeTele, rfl⟩ := h
  refine ⟨hversion, hframe, ⟨v, stx, hv, hstx, rfl, rfl⟩, ⟨enums, mode, henums, hmode, hvalues⟩,
    fun k => ?_, fun k => by cases k <;> rfl⟩
  cases k with
  | cmd => exact ⟨cmd, hcmd, hcmdFields, htypeCmd⟩
  | tele => exact ⟨tele, htele, hteleFields, htypeTele⟩

section Packet

variable {k : PacketType} {frame : PyVal} {layout : List LayoutField}

theorem ctxFields_eq (hctx : makeCtx py schema = .ok ctx)
    (hframe : frameOf schema (packetName k) = .ok frame)
    (hlayout : layoutOfFrame py.toRuntime frame = .ok layout) : ctxFields ctx k = layout := by
  obtain ⟨frame', hframe', hlayout', -⟩ := (fromSchema_of_makeCtx hctx).packet_eq k
  obtain rfl := Except.ok.inj (hframe.symm.trans hframe')
  exact Except.ok.inj (hlayout'.symm.trans hlayout)

theorem ctxType_eq (hctx : makeCtx py schema = .ok ctx)
    (hframe : frameOf schema (packetName k) = .ok frame) {v : PyVal}
    (hv : frame.getItem (.str "type") = .ok v) : ctxType ctx k = v := by
  obtain ⟨frame', hframe', -, hv'⟩ := (fromSchema_of_makeCtx hctx).packet_eq k
  obtain rfl := Except.ok.inj (hframe.symm.trans hframe')
  exact Except.ok.inj (hv'.symm.trans hv)

theorem ctxSize_eq (hctx : makeCtx py schema = .ok ctx)
    (hframe : frameOf schema (packetName k) = .ok frame)
    (hlayout : layoutOfFrame py.toRuntime frame = .ok layout) :
    ctxSize ctx k = totalSize layout := by
  rw [(fromSchema_of_makeCtx hctx).size_eq, ctxFields_eq hctx hframe hlayout]

end Packet

theorem renderCpp_ok {header : CppHeader} (h : renderCpp py schema = .ok header) :
    ∃ ctx, makeCtx py schema = .ok ctx ∧ hexText 2 (.int ctx.stx0) = .ok header.kStx0 ∧
      hexText 2 (.int ctx.stx1) = .ok header.kStx1 ∧
      hexText 2 ctx.version = .ok header.kProtocolVersion ∧
      (∀ k, hexText 2 (ctxType ctx k) = .ok (cppType header k)) ∧
      ∀ k, cppPayloadSize header k = ctxSize ctx k := by
  simp only [renderCpp, bind_eq_ok, lift_eq_ok, pure_eq_ok] at h
  obtain ⟨ctx, hctx, kStx0, hstx0, kStx1, hstx1, version, hversion, typeCmd, hcmd, typeTele,
    htele, -, -, -, -, rfl⟩ := h
  exact ⟨ctx, hctx, hstx0, hstx1, hversion, fun k => by cases k; exacts [hcmd, htele],
    fun k => by cases k <;> rfl⟩

theorem renderC_ok {header : CHeader} (h : renderC py schema = .ok header) :
    ∃ ctx, makeCtx py schema = .ok ctx ∧
      (∀ k, cStruct header k = (ctxFields ctx k).map member) ∧
      ∀ k, cPayloadSize header k = ctxSize ctx k := by
  simp only [renderC, bind_eq_ok, lift_eq_ok, pure_eq_ok] at h
  obtain ⟨ctx, hctx, -, -, -, -, -, -, -, -, -, -, -, -, -, -, rfl⟩ := h
  exact ⟨ctx, hctx, fun k => by cases k <;> rfl, fun k => by cases k <;> rfl⟩

theorem renderMsg_ok {file : MsgFile} {frameName : String} {frame : PyVal}
    {fields : List PyVal} (h : renderMsg py schema frameName = .ok file)
    (hframe : frameOf schema frameName = .ok frame)
    (hfields : frame.getItem (.str "fields") = .ok (.list fields)) :
    fields.mapM (msgField py) = .ok file.fields := by
  simp only [renderMsg, bind_eq_ok, lift_eq_ok, pure_eq_ok] at h
  obtain ⟨-, -, frame', hframe', v, hv, items, hitems, -, -, rows, hrows, rfl⟩ := h
  obtain rfl := Except.ok.inj (hframe.symm.trans hframe')
  obtain rfl := Except.ok.inj (hfields.symm.trans hv)
  obtain rfl := Except.ok.inj hitems
  exact hrows

/-- A value that `%X` formats. -/
def Number (v : PyVal) : Prop := ∃ n, v.keyInt = some n

def Text (v : PyVal) : Prop := ∃ s, v = .str s

theorem returns_hexText {width : Nat} {v : PyVal} : Returns (hexText width v) ↔ Number v := by
  rw [hexText, Number]
  split
  next hnone => simp [hnone, Returns]
  next n hn => exact iff_of_true (returns_ok _) ⟨n, hn⟩

theorem returns_camel {name : PyVal} : Returns (camel py name) ↔ Text name := by
  cases name <;> simp [camel, Returns, Text]

theorem returns_upperName {name : PyVal} : Returns (upperName py name) ↔ Text name := by
  cases name <;> simp [upperName, Returns, Text]

/-- What the two headers need of a context. -/
structure HeaderReady (ctx : Ctx) : Prop where
  version : Number ctx.version
  type : ∀ k, Number (ctxType ctx k)
  names : ∀ k, ∀ f ∈ ctxFields ctx k, Text f.name

theorem forall_packetType {p : PacketType → Prop} : (∀ k, p k) ↔ p .cmd ∧ p .tele :=
  ⟨fun h => ⟨h .cmd, h .tele⟩, fun h k => by cases k; exacts [h.1, h.2]⟩

theorem headerReady_iff : (Number ctx.version ∧ Number ctx.typeCmd ∧ Number ctx.typeTele ∧
    (∀ f ∈ ctx.cmdFields, Text f.name) ∧ ∀ f ∈ ctx.teleFields, Text f.name) ↔
      HeaderReady ctx := by
  constructor
  · rintro ⟨hversion, hcmd, htele, hcmdNames, hteleNames⟩
    exact ⟨hversion, forall_packetType.mpr ⟨hcmd, htele⟩,
      forall_packetType.mpr ⟨hcmdNames, hteleNames⟩⟩
  · intro h
    exact ⟨h.version, h.type .cmd, h.type .tele, h.names .cmd, h.names .tele⟩

theorem number_int (n : Int) : Number (.int n) := ⟨n, rfl⟩

theorem returns_renderCpp (hctx : makeCtx py schema = .ok ctx) :
    Returns (renderCpp py schema) ↔ HeaderReady ctx := by
  simp only [renderCpp, cppOffset, returns_bind, lift_eq_ok, hctx, Except.ok.injEq,
    exists_eq_left', exists_and_right, exists_eq_ok, returns_pure, returns_hexText, returns_mapM,
    returns_camel, number_int, true_and, and_true]
  exact headerReady_iff

theorem returns_renderC (hctx : makeCtx py schema = .ok ctx) :
    Returns (renderC py schema) ↔ HeaderReady ctx := by
  simp only [renderC, cOffset, returns_bind, lift_eq_ok, hctx, Except.ok.injEq,
    exists_eq_left', exists_and_right, exists_eq_ok, returns_pure, returns_hexText, returns_mapM,
    returns_upperName, number_int, true_and, and_true]
  exact headerReady_iff

theorem modeItems_eq_ok {modeValues : PyVal} {entries : List (PyVal × PyVal)} :
    modeItems modeValues = .ok entries ↔ modeValues = .dict entries := by
  cases modeValues <;> simp [modeItems]

theorem returns_modeRow {entry : PyVal × PyVal} :
    Returns (modeRow entry) ↔ entry.2.hashable = true := by
  rw [modeRow]
  split_ifs with hhash
  · exact iff_of_true (returns_bind.mpr ⟨_, rfl, returns_pure _⟩) hhash
  · exact iff_of_false (by simp [Returns]) hhash

theorem returns_renderMd (hctx : makeCtx py schema = .ok ctx) :
    Returns (renderMd py schema) ↔ (∃ v, knownAnswer ctx.frame = .ok v ∧ Number v) ∧
      ∃ entries, ctx.modeValues = .dict entries ∧ ∀ entry ∈ entries, entry.2.hashable = true := by
  simp only [renderMd, returns_bind, lift_eq_ok, hctx, Except.ok.injEq, exists_eq_left',
    exists_and_right, exists_eq_ok, returns_pure, returns_hexText, returns_mapM,
    modeItems_eq_ok, returns_modeRow, and_true]
  simp only [← and_assoc, exists_and_right]

theorem returns_renderMsg {frame : PyVal} {fields : List PyVal} {frameName : String}
    (hctx : makeCtx py schema = .ok ctx) (hframe : frameOf schema frameName = .ok frame)
    (hfields : frame.getItem (.str "fields") = .ok (.list fields)) :
    Returns (renderMsg py schema frameName) ↔ (∃ entries, ctx.modeValues = .dict entries) ∧
      ∀ field ∈ fields, Returns (msgField py field) := by
  simp only [renderMsg, returns_bind, lift_eq_ok, hctx, hframe, hfields, PyVal.items,
    Except.ok.injEq, exists_eq_left', exists_and_right, exists_eq_ok, returns_pure,
    returns_mapM, modeItems_eq_ok, and_true]

end RovSdk.GeneratorContext
