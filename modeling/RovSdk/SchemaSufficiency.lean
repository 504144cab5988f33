import RovSdk.GeneratorContext
import RovSdk.GoldenFrames

namespace RovSdk.SchemaSufficiency

open RovSdk.Results
open RovSdk.ProtocolBytes (encodeFrame)
open RovSdk.Packets
open RovSdk.ProtocolSchema
open RovSdk.PythonValues
open RovSdk.SchemaLayout
open RovSdk.SchemaValidator
open RovSdk.CodeGenerator
open RovSdk.FrameLayouts
open RovSdk.GeneratorContext
open RovSdk.GoldenFrames
open RovSdk.GoldenGenerator (caseFromInputs buildPayload buildFrame)

variable {py : TextRuntime} {data schema frame field name : PyVal} {fields names : List PyVal}
  {f : LayoutField} {layout : List LayoutField} {ctx : Ctx}

def countOf (py : Runtime) (field : PyVal) : Option Int :=
  match field.get (.str "count") (.int 1) with
  | .ok count => (py.int count).toOption
  | .error _ => none

def fieldSize (py : Runtime) (field : PyVal) : Int :=
  match (field.getItem (.str "type")).toOption.bind elemType, countOf py field with
  | some t, some n => t.size * n
  | _, _ => 0

/-- A frame with these fields, of at least one element each, that one byte each can state
the type and the length of. -/
structure FrameFits (py : Runtime) (frame : PyVal) (fields : List PyVal) (type : UInt8) :
    Prop where
  fields_eq : frame.getItem (.str "fields") = .ok (.list fields)
  type_eq : ∃ v, frame.getItem (.str "type") = .ok v ∧ OneByte v type
  counts : ∀ field ∈ fields, ∃ n, countOf py field = some n ∧ 1 ≤ n
  size_le : (fields.map (fieldSize py)).sum ≤ 255

structure Renderable (fields : List PyVal) : Prop where
  names : ∀ field ∈ fields, ∃ s, field.getItem (.str "name") = .ok (.str s)
  counts : ∀ field ∈ fields, ∀ s, field.get (.str "count") (.int 1) ≠ .ok (.str s)

/-- What the generators and the wire need of a schema. -/
structure Frameable (py : TextRuntime) (schema : PyVal) : Prop where
  stx : ∃ v n, valueAt schema ["frame", "stx"] = .ok v ∧ py.intOfStr v = .ok n
  knownAnswer : ∃ v, valueAt schema ["frame", "crc", "known_answer"] = .ok v ∧ Number v
  modes : ∃ entries, valueAt schema ["enums", "Mode", "values"] = .ok (.dict entries) ∧
    ∀ entry ∈ entries, entry.2.hashable = true
  version : ∃ v b, valueAt schema ["version"] = .ok v ∧ OneByte v b
  frames : ∃ entries, schema.getItem (.str "frames") = .ok (.dict entries) ∧
    ∀ entry ∈ entries, ∃ fields type, FrameFits py.toRuntime entry.2 fields type
  packets : ∃ types : PacketType → UInt8, types .cmd ≠ types .tele ∧
    ∀ k, ∃ frame fields, valueAt schema ["frames", packetName k] = .ok frame ∧
      FrameFits py.toRuntime frame fields (types k) ∧ Renderable fields

/-- A frame whose computed size is that of every payload that `build_payload` makes for it,
and is what the length byte of the frame around it states. -/
structure Framed (py : Runtime) (frame : PyVal) (layout : List LayoutField) (type : UInt8) :
    Prop where
  layout_eq : layoutOfFrame py frame = .ok layout
  size_le : totalSize layout ≤ 255
  type_eq : ∃ v, frame.getItem (.str "type") = .ok v ∧ OneByte v type
  stored : ∀ inputs, Matches layout inputs → ∃ payload data len,
    buildPayload py layout inputs = .ok payload ∧
      (do buildFrame payload (← frame.getItem (.str "type"))) = .ok data ∧
      data[3]? = some len ∧ (payload.length : Int) = totalSize layout ∧
      (len.toNat : Int) = totalSize layout

/-- Every artifact is generated, every frame of the schema fits the wire, its length byte
states its computed size, and every golden case is built. -/
structure Sufficient (py : TextRuntime) (schema : PyVal) (ctx : Ctx) : Prop where
  context : makeCtx py schema = .ok ctx
  cpp : Returns (renderCpp py schema)
  c : Returns (renderC py schema)
  docs : Returns (renderMd py schema)
  msg : ∀ k, Returns (renderMsg py schema (packetName k))
  size_le : ∀ k, 0 ≤ ctxSize ctx k ∧ ctxSize ctx k ≤ 255
  version : ∃ b, OneByte ctx.version b
  types : ∃ types : PacketType → UInt8, types .cmd ≠ types .tele ∧
    ∀ k, OneByte (ctxType ctx k) (types k)
  frames : ∃ entries, schema.getItem (.str "frames") = .ok (.dict entries) ∧
    ∀ entry ∈ entries, ∃ layout type, Framed py.toRuntime entry.2 layout type
  golden : ∀ frameName frame layout inputs arrayName notes,
    frameOf schema frameName = .ok frame → layoutOfFrame py.toRuntime frame = .ok layout →
      Matches layout inputs → ∃ c,
        caseFromInputs py.toRuntime schema frameName inputs arrayName notes = .ok c ∧
          (c.payloadSize : Int) = totalSize layout

theorem countOf_eq_some {n : Int} : countOf py.toRuntime field = some n ↔
    ∃ c, field.get (.str "count") (.int 1) = .ok c ∧ py.int c = .ok n := by
  rw [countOf]
  rcases field.get (.str "count") (.int 1) with e | c
  · simp
  · have hopt : ∀ x : Except PyError Int, x.toOption = some n ↔ x = .ok n := by
      intro x
      cases x <;> simp [Except.toOption]
    simp [hopt]

/-- A count that converts compares with 1 unless it is a text. -/
theorem returns_aboveOne_iff {c : PyVal} {n : Int} (hint : py.int c = .ok n) :
    Returns (aboveOne py c) ↔ ∀ s, c ≠ .str s := by
  cases c <;> simp_all [aboveOne, Returns, Runtime.int]

theorem returns_msgField (hvalid : ValidField field name) {c : PyVal}
    (hget : field.get (.str "count") (.int 1) = .ok c) :
    Returns (msgField py field) ↔ Returns (aboveOne py c) := by
  have htype : ∃ t, field.getItem (.str "type") = .ok t := by
    rcases hvalid.type_eq with h | h
    · exact ⟨_, h⟩
    · exact ⟨_, h⟩
  obtain ⟨t, ht⟩ := htype
  simp only [msgField, returns_bind, hget, ht, hvalid.name_eq, Except.ok.injEq, exists_eq_left',
    exists_eq_ok, returns_pure, exists_eq', and_true]

theorem countOf_of_laidOut {offset : Int} (hlaid : LaidOut py.toRuntime offset field f) :
    countOf py.toRuntime field = some f.count :=
  countOf_eq_some.mpr hlaid.count_eq

theorem fieldSize_eq {offset : Int} (hlaid : LaidOut py.toRuntime offset field f)
    (hsized : Sized f) : fieldSize py.toRuntime field = f.size := by
  obtain ⟨t, htype, hsize⟩ := hsized.elemType
  have helem : (Except.ok (ε := PyError) f.type).toOption.bind elemType = some t := htype
  simp only [fieldSize, hlaid.type_eq, helem, countOf_of_laidOut hlaid, hsized.size_eq, hsize]

theorem sum_fieldSize
    (hlaid : List.Forall₂ (fun field f => LaidOut py.toRuntime f.offset field f) fields layout)
    (hsized : ∀ f ∈ layout, Sized f) :
    (fields.map (fieldSize py.toRuntime)).sum = totalSize layout := by
  induction hlaid with
  | nil => rfl
  | cons hfield _ ih =>
      rw [List.forall_mem_cons] at hsized
      rw [List.map_cons, List.sum_cons, fieldSize_eq hfield hsized.1, ih hsized.2]
      rfl

theorem counts_iff
    (hlaid : List.Forall₂ (fun field f => LaidOut py.toRuntime f.offset field f) fields layout) :
    (∀ f ∈ layout, 1 ≤ f.count) ↔
      ∀ field ∈ fields, ∃ n, countOf py.toRuntime field = some n ∧ 1 ≤ n := by
  constructor
  · intro h field hfield
    obtain ⟨f, hf, hplaced⟩ := exists_of_mem_left hlaid hfield
    exact ⟨f.count, countOf_of_laidOut hplaced, h f hf⟩
  · intro h f hf
    obtain ⟨field, hfield, hplaced⟩ := exists_of_mem_right hlaid hf
    obtain ⟨n, hn, hpos⟩ := h field hfield
    rw [countOf_of_laidOut hplaced] at hn
    rwa [Option.some.inj hn]

theorem getElem?_encodeFrame (payload : List UInt8) (type : UInt8) :
    (encodeFrame payload type)[3]? = some (UInt8.ofNat payload.length) := rfl

/-- One way: sample inputs pack to as many bytes as the entries occupy, so every entry
states as many as it occupies. -/
theorem frameFits_of_framed {type : UInt8} (hvalid : ValidFields fields names)
    (hfields : frame.getItem (.str "fields") = .ok (.list fields))
    (h : Framed py.toRuntime frame layout type) : FrameFits py.toRuntime frame fields type := by
  have hcompute := h.layout_eq
  rw [layoutOfFrame_eq hfields] at hcompute
  have hof := layoutOf_of_computeLayout hvalid hcompute
  have hmatches := matches_sampleInputs hof.sized hof.hashable hof.distinct
  obtain ⟨payload, data, len, hpayload, -, -, hlength, -⟩ := h.stored _ hmatches
  obtain ⟨payload', hpayload', hoccupied⟩ := exists_buildPayload py.toRuntime hof.sized hmatches
  obtain rfl := Except.ok.inj (hpayload.symm.trans hpayload')
  have hcounts := (totalSize_eq_iff hof.sized).mp (hlength.symm.trans hoccupied)
  refine ⟨hfields, h.type_eq, (counts_iff hof.entries).mp hcounts, ?_⟩
  rw [sum_fieldSize hof.entries hof.sized]
  exact h.size_le

theorem exists_framed {type : UInt8} (hvalid : ValidFields fields names)
    (h : FrameFits py.toRuntime frame fields type) :
    ∃ layout, LayoutOf py.toRuntime fields layout ∧ 0 ≤ totalSize layout ∧
      Framed py.toRuntime frame layout type := by
  obtain ⟨layout, hlayout⟩ := exists_computeLayoutFrom hvalid.fields
    (fun field hfield => by
      obtain ⟨n, hn, -⟩ := h.counts field hfield
      obtain ⟨c, hget, hint⟩ := countOf_eq_some.mp hn
      exact ⟨c, n, hget, hint⟩) 0
  have hof := layoutOf_of_computeLayout hvalid hlayout
  have htotal := (totalSize_eq_iff hof.sized).mpr ((counts_iff hof.entries).mpr h.counts)
  have hle := h.size_le
  rw [sum_fieldSize hof.entries hof.sized] at hle
  have hnonneg : 0 ≤ totalSize layout := List.sum_nonneg fun size hsize => by
    obtain ⟨f, hf, rfl⟩ := List.mem_map.mp hsize
    exact ((hof.sized f hf).size_pos ((counts_iff hof.entries).mpr h.counts f hf)).le
  refine ⟨layout, hof, hnonneg, by rw [layoutOfFrame_eq h.fields_eq, computeLayout, hlayout],
    hle, h.type_eq, fun inputs hmatches => ?_⟩
  obtain ⟨payload, hpayload, hlength⟩ := exists_buildPayload py.toRuntime hof.sized hmatches
  obtain ⟨v, hv, hbyte⟩ := h.type_eq
  have hbuild : buildFrame payload v = .ok (encodeFrame payload type) :=
    buildFrame_eq_ok.mpr ⟨by omega, type, hbyte, rfl⟩
  refine ⟨payload, encodeFrame payload type, UInt8.ofNat payload.length, hpayload, ?_,
    getElem?_encodeFrame payload type, hlength.trans htotal.symm, ?_⟩
  · rw [hv, ok_bind, hbuild]
  · rw [UInt8.toNat_ofNat']
    omega

theorem isDict_of_getItem {d key v : PyVal} (h : d.getItem key = .ok v) : isDict d = true := by
  cases d with
  | dict entries => rfl
  | _ => cases h

theorem getItem_str {entries : List (PyVal × PyVal)} {key : String} {v : PyVal} :
    (PyVal.dict entries).getItem (.str key) = .ok v ↔
      PyVal.lookup entries (.str key) = some v := by
  have hhash : (PyVal.str key).hashable = true := rfl
  rw [PyVal.getItem, if_pos hhash]
  split
  next w hw => simp [hw]
  next hnone => simp [hnone]

theorem knownAnswer_iff (hdict : isDict frame = true) :
    (∃ v, knownAnswer frame = .ok v ∧ Number v) ↔
      ∃ v, valueAt frame ["crc", "known_answer"] = .ok v ∧ Number v := by
  obtain ⟨entries, rfl⟩ := isDict_iff.mp hdict
  have hhash : (PyVal.str "crc").hashable = true := rfl
  simp only [knownAnswer, PyVal.get, contains, if_pos hhash, valueAt_cons, valueAt_nil,
    bind_eq_ok, lift_eq_ok, throw_bind, throw_if_eq_ok, getItem_str]
  rcases PyVal.lookup entries (.str "crc") with _ | crc
  · simp
  · cases crc with
    | dict crc =>
      rcases hknown : PyVal.lookup crc (.str "known_answer") with _ | v
      · simp [getItem_str, lift_ok, hknown, Number, PyVal.keyInt]
      · simp [getItem_str, lift_ok, hknown]
    | _ => simp [PyVal.getItem, pure_eq_ok, Number, PyVal.keyInt]

theorem exists_makeCtx {frameMeta enums mode values v version : PyVal} {stx : Int}
    (hframe : schema.getItem (.str "frame") = .ok frameMeta)
    (hv : frameMeta.getItem (.str "stx") = .ok v) (hstx : py.intOfStr v = .ok stx)
    (henums : schema.getItem (.str "enums") = .ok enums)
    (hmode : enums.getItem (.str "Mode") = .ok mode)
    (hvalues : mode.getItem (.str "values") = .ok values)
    (hversion : schema.getItem (.str "version") = .ok version)
    (hpackets : ∀ k, ∃ frame layout type, frameOf schema (packetName k) = .ok frame ∧
      layoutOfFrame py.toRuntime frame = .ok layout ∧ frame.getItem (.str "type") = .ok type) :
    ∃ ctx, makeCtx py schema = .ok ctx := by
  obtain ⟨cmd, cmdFields, typeCmd, hcmd, hcmdFields, htypeCmd⟩ := hpackets .cmd
  obtain ⟨tele, teleFields, typeTele, htele, hteleFields, htypeTele⟩ := hpackets .tele
  simp only [packetName] at hcmd htele
  simp only [makeCtx, hframe, hcmd, htele, hcmdFields, hteleFields, hv, hstx, henums, hmode,
    hvalues, hversion, htypeCmd, htypeTele, ok_bind]
  exact ⟨_, rfl⟩

theorem fields_of_mem {entries : List (PyVal × PyVal)} (haccepted : loadSchema data = .ok schema)
    (hframes : schema.getItem (.str "frames") = .ok (.dict entries))
    (hmem : (name, frame) ∈ entries) :
    ∃ fields names, frame.getItem (.str "fields") = .ok (.list fields) ∧
      ValidFields fields names := by
  obtain ⟨rfl, -, -, frames, hframes', hvalid⟩ := loadSchema_ok haccepted
  obtain rfl := PyVal.dict.inj (Except.ok.inj (hframes.symm.trans hframes'))
  exact validateFrame_ok (hvalid _ hmem)

theorem mem_of_frameOf {entries : List (PyVal × PyVal)} {frameName : String}
    (hframes : schema.getItem (.str "frames") = .ok (.dict entries))
    (hframe : frameOf schema frameName = .ok frame) : ∃ key, (key, frame) ∈ entries := by
  rw [frameOf, hframes, ok_bind] at hframe
  exact mem_of_getItem hframe

theorem renderable_of_sufficient (h : Sufficient py schema ctx) {k : PacketType}
    (hframe : frameOf schema (packetName k) = .ok frame) (hvalid : ValidFields fields names)
    (hfits : ∃ type, FrameFits py.toRuntime frame fields type) : Renderable fields := by
  obtain ⟨type, hfits⟩ := hfits
  obtain ⟨layout, hof, -, hframed⟩ := exists_framed hvalid hfits
  have hnames := ((returns_renderCpp h.context).mp h.cpp).names k
  rw [ctxFields_eq h.context hframe hframed.layout_eq] at hnames
  have hmsg := ((returns_renderMsg h.context hframe hfits.fields_eq).mp (h.msg k)).2
  constructor
  · intro field hfield
    obtain ⟨f, hf, hlaid⟩ := exists_of_mem_left hof.entries hfield
    obtain ⟨s, hs⟩ := hnames f hf
    exact ⟨s, by rw [hlaid.name_eq, hs]⟩
  · intro field hfield s hget
    obtain ⟨name, -, hname⟩ := exists_of_mem_left hvalid.fields hfield
    obtain ⟨n, hn, -⟩ := hfits.counts field hfield
    obtain ⟨c, hget', hint⟩ := countOf_eq_some.mp hn
    have habove := (returns_msgField hname hget').mp (hmsg field hfield)
    exact (returns_aboveOne_iff hint).mp habove s (Except.ok.inj (hget'.symm.trans hget))

theorem frameable_of_sufficient (haccepted : loadSchema data = .ok schema)
    (h : Sufficient py schema ctx) : Frameable py schema := by
  have hfrom := fromSchema_of_makeCtx h.context
  obtain ⟨hknown, entries, hentries, hhash⟩ := (returns_renderMd h.context).mp h.docs
  obtain ⟨v, stx, hv, hstx, -, -⟩ := hfrom.stx_eq
  obtain ⟨enums, mode, henums, hmode, hvalues⟩ := hfrom.modes_eq
  obtain ⟨b, hb⟩ := h.version
  obtain ⟨types, hne, htypes⟩ := h.types
  obtain ⟨frames, hframes, hframed⟩ := h.frames
  have hfits : ∀ key frame, (key, frame) ∈ frames → ∃ fields names type,
      ValidFields fields names ∧ FrameFits py.toRuntime frame fields type := by
    intro key frame hmem
    obtain ⟨fields, names, hfields, hvalid⟩ := fields_of_mem haccepted hframes hmem
    obtain ⟨layout, type, hlayout⟩ := hframed _ hmem
    exact ⟨fields, names, type, hvalid, frameFits_of_framed hvalid hfields hlayout⟩
  constructor
  · refine ⟨v, stx, ?_, hstx⟩
    rw [valueAt_of_getItem hfrom.frame_eq, valueAt_of_getItem hv, valueAt_nil]
  · rw [valueAt_of_getItem hfrom.frame_eq]
    exact (knownAnswer_iff (isDict_of_getItem hv)).mp hknown
  · refine ⟨entries, ?_, hhash⟩
    rw [valueAt_of_getItem henums, valueAt_of_getItem hmode, valueAt_of_getItem hvalues,
      hentries, valueAt_nil]
  · exact ⟨ctx.version, b, by rw [valueAt_of_getItem hfrom.version_eq, valueAt_nil], hb⟩
  · refine ⟨frames, hframes, fun entry hentry => ?_⟩
    obtain ⟨fields, names, type, -, hframe⟩ := hfits entry.1 entry.2 hentry
    exact ⟨fields, type, hframe⟩
  · refine ⟨types, hne, fun k => ?_⟩
    obtain ⟨frame, hframe, -, htype⟩ := hfrom.packet_eq k
    obtain ⟨key, hmem⟩ := mem_of_frameOf hframes hframe
    obtain ⟨fields, names, type, hvalid, hframeFits⟩ := hfits key frame hmem
    exact ⟨frame, fields, by rw [valueAt_frames, hframe],
      { hframeFits with type_eq := ⟨_, htype, htypes k⟩ },
      renderable_of_sufficient h hframe hvalid ⟨type, hframeFits⟩⟩

structure PacketReady (py : TextRuntime) (schema : PyVal) (ctx : Ctx) (k : PacketType)
    (type : UInt8) (frame : PyVal) (fields : List PyVal) : Prop where
  frame_eq : frameOf schema (packetName k) = .ok frame
  fields_eq : frame.getItem (.str "fields") = .ok (.list fields)
  type_eq : OneByte (ctxType ctx k) type
  size_le : 0 ≤ ctxSize ctx k ∧ ctxSize ctx k ≤ 255
  names : ∀ f ∈ ctxFields ctx k, Text f.name
  rows : ∀ field ∈ fields, Returns (msgField py field)

theorem packetReady_of_fits {k : PacketType} {type : UInt8} (hctx : makeCtx py schema = .ok ctx)
    (hframe : frameOf schema (packetName k) = .ok frame) (hvalid : ValidFields fields names)
    (hfits : FrameFits py.toRuntime frame fields type) (hrender : Renderable fields) :
    PacketReady py schema ctx k type frame fields := by
  obtain ⟨layout, hof, hnonneg, hframed⟩ := exists_framed hvalid hfits
  obtain ⟨v, hv, htype⟩ := hfits.type_eq
  refine ⟨hframe, hfits.fields_eq, by rwa [ctxType_eq hctx hframe hv], ?_, ?_, ?_⟩
  · rw [ctxSize_eq hctx hframe hframed.layout_eq]
    exact ⟨hnonneg, hframed.size_le⟩
  · rw [ctxFields_eq hctx hframe hframed.layout_eq]
    intro f hf
    obtain ⟨field, hfield, hlaid⟩ := exists_of_mem_right hof.entries hf
    obtain ⟨s, hs⟩ := hrender.names field hfield
    exact ⟨s, Except.ok.inj (hlaid.name_eq.symm.trans hs)⟩
  · intro field hfield
    obtain ⟨name, -, hname⟩ := exists_of_mem_left hvalid.fields hfield
    obtain ⟨n, hn, -⟩ := hfits.counts field hfield
    obtain ⟨c, hget, hint⟩ := countOf_eq_some.mp hn
    rw [returns_msgField hname hget, returns_aboveOne_iff hint]
    rintro s rfl
    exact hrender.counts field hfield s hget

theorem sufficient_of_packetReady (hctx : makeCtx py schema = .ok ctx)
    (hknown : ∃ v, knownAnswer ctx.frame = .ok v ∧ Number v)
    (hmodes : ∃ entries, ctx.modeValues = .dict entries ∧
      ∀ entry ∈ entries, entry.2.hashable = true)
    (hversion : ∃ b, OneByte ctx.version b) {types : PacketType → UInt8}
    (hne : types .cmd ≠ types .tele)
    (hready : ∀ k, ∃ frame fields, PacketReady py schema ctx k (types k) frame fields)
    {entries : List (PyVal × PyVal)}
    (hframes : schema.getItem (.str "frames") = .ok (.dict entries))
    (hframed : ∀ entry ∈ entries, ∃ layout type, Framed py.toRuntime entry.2 layout type) :
    Sufficient py schema ctx := by
  have hheader : HeaderReady ctx := by
    refine ⟨?_, fun k => ?_, fun k => ?_⟩
    · obtain ⟨b, hb⟩ := hversion
      exact ⟨_, hb⟩
    · obtain ⟨frame, fields, hpacket⟩ := hready k
      exact ⟨_, hpacket.type_eq⟩
    · obtain ⟨frame, fields, hpacket⟩ := hready k
      exact hpacket.names
  refine ⟨hctx, (returns_renderCpp hctx).mpr hheader, (returns_renderC hctx).mpr hheader,
    (returns_renderMd hctx).mpr ⟨hknown, hmodes⟩, fun k => ?_, fun k => ?_, hversion,
    ⟨types, hne, fun k => ?_⟩, ⟨entries, hframes, hframed⟩, ?_⟩
  · obtain ⟨frame, fields, hpacket⟩ := hready k
    obtain ⟨modes, hvalues, -⟩ := hmodes
    exact (returns_renderMsg hctx hpacket.frame_eq hpacket.fields_eq).mpr
      ⟨⟨modes, hvalues⟩, hpacket.rows⟩
  · obtain ⟨frame, fields, hpacket⟩ := hready k
    exact hpacket.size_le
  · obtain ⟨frame, fields, hpacket⟩ := hready k
    exact hpacket.type_eq
  · intro frameName frame layout inputs arrayName notes hframe hlayout hmatches
    obtain ⟨key, hmem⟩ := mem_of_frameOf hframes hframe
    obtain ⟨layout', type, hframe'⟩ := hframed _ hmem
    obtain rfl := Except.ok.inj (hlayout.symm.trans hframe'.layout_eq)
    obtain ⟨payload, data, len, hpayload, hbuild, -, hlength, -⟩ := hframe'.stored _ hmatches
    obtain ⟨v, hv, htype⟩ := hframe'.type_eq
    have hle := hframe'.size_le
    obtain ⟨c, hc, -⟩ := (exists_case_iff hframe hlayout hpayload hv).mpr
      ⟨by omega, type, htype, rfl⟩
    exact ⟨c, hc, by rw [payloadSize_eq hframe hlayout hpayload hc, hlength]⟩

theorem sufficient_of_frameable (haccepted : loadSchema data = .ok schema)
    (h : Frameable py schema) : ∃ ctx, Sufficient py schema ctx := by
  obtain ⟨⟨v, stx, hv, hstx⟩, hknown, ⟨modes, hmodes, hhash⟩, ⟨version, b, hversion, hb⟩,
    ⟨entries, hentries, hfits⟩, types, hne, hpackets⟩ := h
  simp only [valueAt_cons, valueAt_nil, bind_eq_ok, Except.ok.injEq, exists_eq_right]
    at hv hmodes hversion
  simp only [valueAt_frames] at hpackets
  obtain ⟨frameMeta, hframeMeta, hv⟩ := hv
  obtain ⟨enums, henums, mode, hmode, hvalues⟩ := hmodes
  have hframed : ∀ entry ∈ entries, ∃ layout type, Framed py.toRuntime entry.2 layout type := by
    intro entry hentry
    have hmem : (entry.1, entry.2) ∈ entries := hentry
    obtain ⟨fields, names, hfields, hvalid⟩ := fields_of_mem haccepted hentries hmem
    obtain ⟨fields', type, hframe⟩ := hfits entry hentry
    obtain rfl := PyVal.list.inj (Except.ok.inj (hfields.symm.trans hframe.fields_eq))
    obtain ⟨layout, -, -, hlayout⟩ := exists_framed hvalid hframe
    exact ⟨layout, type, hlayout⟩
  have hvalidPacket : ∀ k, ∃ frame fields names, frameOf schema (packetName k) = .ok frame ∧
      ValidFields fields names ∧ FrameFits py.toRuntime frame fields (types k) ∧
      Renderable fields := by
    intro k
    obtain ⟨frame, fields, hframe, hframeFits, hrender⟩ := hpackets k
    obtain ⟨fields', names, hfields, hvalid⟩ := fields_of_loadSchema haccepted hframe
    obtain rfl := PyVal.list.inj (Except.ok.inj (hframeFits.fields_eq.symm.trans hfields))
    exact ⟨frame, fields, names, hframe, hvalid, hframeFits, hrender⟩
  obtain ⟨ctx, hctx⟩ := exists_makeCtx hframeMeta hv hstx henums hmode hvalues hversion
    fun k => by
      obtain ⟨frame, fields, names, hframe, hvalid, hframeFits, -⟩ := hvalidPacket k
      obtain ⟨layout, -, -, hlayout⟩ := exists_framed hvalid hframeFits
      obtain ⟨w, hw, -⟩ := hframeFits.type_eq
      exact ⟨frame, layout, w, hframe, hlayout.layout_eq, hw⟩
  have hfrom := fromSchema_of_makeCtx hctx
  obtain rfl := Except.ok.inj (hframeMeta.symm.trans hfrom.frame_eq)
  obtain rfl := Except.ok.inj (hversion.symm.trans hfrom.version_eq)
  obtain ⟨enums', mode', henums', hmode', hvalues'⟩ := hfrom.modes_eq
  obtain rfl := Except.ok.inj (henums.symm.trans henums')
  obtain rfl := Except.ok.inj (hmode.symm.trans hmode')
  rw [valueAt_of_getItem hframeMeta] at hknown
  refine ⟨ctx, sufficient_of_packetReady hctx
    ((knownAnswer_iff (isDict_of_getItem hv)).mpr hknown)
    ⟨modes, (Except.ok.inj (hvalues.symm.trans hvalues')).symm, hhash⟩ ⟨b, hb⟩ hne
    (fun k => ?_) hentries hframed⟩
  obtain ⟨frame, fields, names, hframe, hvalid, hframeFits, hrender⟩ := hvalidPacket k
  exact ⟨frame, fields, packetReady_of_fits hctx hframe hvalid hframeFits hrender⟩

/-- An accepted schema is enough for the wire format just where it is frameable. -/
theorem schema_sufficient_iff (py : TextRuntime) {data schema : PyVal}
    (haccepted : loadSchema data = .ok schema) :
    (∃ ctx, Sufficient py schema ctx) ↔ Frameable py schema :=
  ⟨fun ⟨_, h⟩ => frameable_of_sufficient haccepted h, sufficient_of_frameable haccepted⟩

theorem frameFits_toPy (entries : List FieldEntry) {type : UInt8}
    (hfields : frame.getItem (.str "fields") = .ok (.list (entries.map FieldEntry.toPy)))
    (htype : ∃ v, frame.getItem (.str "type") = .ok v ∧ OneByte v type)
    (hcounts : ∀ e ∈ entries, e.count ≠ some 0)
    (hsize : ((entries.map FieldEntry.toPy).map (fieldSize py.toRuntime)).sum ≤ 255) :
    FrameFits py.toRuntime frame (entries.map FieldEntry.toPy) type := by
  refine ⟨hfields, htype, fun field hfield => ?_, hsize⟩
  obtain ⟨⟨name, fieldType, unit, range, notes, count⟩, hentry, rfl⟩ := List.mem_map.mp hfield
  cases count with
  | none => exact ⟨1, rfl, Int.le_refl 1⟩
  | some n =>
      have hne : n ≠ 0 := fun hzero => hcounts _ hentry (congrArg some hzero)
      exact ⟨n, rfl, by omega⟩

theorem renderable_toPy (entries : List FieldEntry) :
    Renderable (entries.map FieldEntry.toPy) := by
  constructor
  · intro field hfield
    obtain ⟨⟨name, fieldType, unit, range, notes, count⟩, -, rfl⟩ := List.mem_map.mp hfield
    exact ⟨name, rfl⟩
  · intro field hfield s hget
    obtain ⟨⟨name, fieldType, unit, range, notes, count⟩, -, rfl⟩ := List.mem_map.mp hfield
    cases count with
    | none => cases hget
    | some n => cases hget

theorem protocol_sufficient : ∃ ctx, Sufficient plainRuntime protocolYaml ctx := by
  have haccepted : loadSchema protocolYaml = .ok protocolYaml := rfl
  have hcmd (frame : PyVal) (h : frameOf protocolYaml "CmdPacket" = .ok frame) :
      FrameFits plainRuntime.toRuntime frame (cmdFields.map FieldEntry.toPy) 1 := by
    obtain rfl := Except.ok.inj (Eq.trans rfl h)
    exact frameFits_toPy cmdFields rfl ⟨_, rfl, rfl⟩ (by decide) (by decide)
  have htele (frame : PyVal) (h : frameOf protocolYaml "TelemetryPacket" = .ok frame) :
      FrameFits plainRuntime.toRuntime frame (teleFields.map FieldEntry.toPy) 2 := by
    obtain rfl := Except.ok.inj (Eq.trans rfl h)
    exact frameFits_toPy teleFields rfl ⟨_, rfl, rfl⟩ (by decide) (by decide)
  refine (schema_sufficient_iff plainRuntime haccepted).mpr ⟨?_, ?_, ?_, ?_, ?_, ?_⟩
  · exact ⟨_, _, rfl, rfl⟩
  · exact ⟨_, rfl, _, rfl⟩
  · exact ⟨_, rfl, by decide⟩
  · exact ⟨_, 2, rfl, rfl⟩
  · exact ⟨_, rfl, List.forall_mem_cons.mpr ⟨⟨_, _, hcmd _ rfl⟩,
      List.forall_mem_singleton.mpr ⟨_, _, htele _ rfl⟩⟩⟩
  · refine ⟨fun k => if k = .cmd then 1 else 2, by decide, fun k => ?_⟩
    cases k with
    | cmd => exact ⟨_, _, rfl, hcmd _ rfl, renderable_toPy cmdFields⟩
    | tele => exact ⟨_, _, rfl, htele _ rfl, renderable_toPy teleFields⟩

/-- The schema with a command of one array, of 300 bytes. -/
def blobSchema : PyVal := schemaWith 2 [⟨"blob", "u8", "", .none, "", some 300⟩] teleFields

/-- It is accepted, and the payload size in the generated header does not fit one byte. -/
theorem blob_not_sufficient : loadSchema blobSchema = .ok blobSchema ∧
    (∃ header, renderCpp plainRuntime blobSchema = .ok header ∧ header.kCmdPayloadSize = 300) ∧
    ¬∃ ctx, Sufficient plainRuntime blobSchema ctx := by
  refine ⟨rfl, ⟨_, rfl, rfl⟩, ?_⟩
  rintro ⟨ctx, h⟩
  obtain rfl := Except.ok.inj (h.context.symm.trans rfl)
  exact absurd (h.size_le .cmd).2 (by decide)

end RovSdk.SchemaSufficiency
