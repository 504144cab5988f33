import RovSdk.GeneratedStructs

namespace RovSdk.ArtifactAgreement

open RovSdk.Results
open RovSdk.PythonValues
open RovSdk.SchemaLayout
open RovSdk.SchemaValidator
open RovSdk.CodeGenerator
open RovSdk.FrameLayouts
open RovSdk.GeneratorContext
open RovSdk.GeneratedStructs (aboveOne_of_keyInt int_of_keyInt get_of_fieldCount fieldCount_toPy)
open RovSdk.ProtocolSchema
open RovSdk.Packets

section Names

variable {ν ν' α : Type*}

/-- Constants of two headers under paired names, each pair with one value. -/
structure Paired (names : List (ν × ν')) (first : List (ν × α)) (second : List (ν' × α)) :
    Prop where
  firstNames : first.map Prod.fst = names.map Prod.fst
  secondNames : second.map Prod.fst = names.map Prod.snd
  values : first.map Prod.snd = second.map Prod.snd

/-- The name stands for this value and for no other. -/
def Defines (constants : List (ν × α)) (name : ν) (value : α) : Prop :=
  ∀ value', (name, value') ∈ constants ↔ value' = value

theorem defines_of_nodup {constants : List (ν × α)} {name : ν} {value : α}
    (h : (constants.map Prod.fst).Nodup) (hmem : (name, value) ∈ constants) :
    Defines constants name value := by
  intro value'
  constructor
  · exact fun hmem' => congrArg Prod.snd (List.inj_on_of_nodup_map h hmem' hmem rfl)
  · rintro rfl
    exact hmem

variable {names names' : List (ν × ν')} {first first' : List (ν × α)}
  {second second' : List (ν' × α)}

theorem Paired.append (h : Paired names first second) (h' : Paired names' first' second') :
    Paired (names ++ names') (first ++ first') (second ++ second') where
  firstNames := by rw [List.map_append, List.map_append, h.firstNames, h'.firstNames]
  secondNames := by rw [List.map_append, List.map_append, h.secondNames, h'.secondNames]
  values := by rw [List.map_append, List.map_append, h.values, h'.values]

theorem Paired.exists_value (h : Paired names first second) {n : ν × ν'} (hn : n ∈ names) :
    ∃ v, (n.1, v) ∈ first ∧ (n.2, v) ∈ second := by
  obtain ⟨hfirst, hsecond, hvalues⟩ := h
  induction names generalizing first second with
  | nil => cases hn
  | cons n' names ih =>
      rcases first with _ | ⟨a, first⟩
      · cases hfirst
      rcases second with _ | ⟨b, second⟩
      · cases hsecond
      rw [List.map_cons, List.map_cons, List.cons.injEq] at hfirst hsecond hvalues
      rcases List.mem_cons.mp hn with rfl | hn
      · exact ⟨a.2, List.mem_cons.mpr (.inl (Prod.ext hfirst.1.symm rfl)),
          List.mem_cons.mpr (.inl (Prod.ext hsecond.1.symm hvalues.1))⟩
      · obtain ⟨v, hv, hv'⟩ := ih hn hfirst.2 hsecond.2 hvalues.2
        exact ⟨v, List.mem_cons_of_mem a hv, List.mem_cons_of_mem b hv'⟩

/-- Where no name comes twice, paired names stand for one value. -/
theorem Paired.defines (h : Paired names first second) (hfirst : (first.map Prod.fst).Nodup)
    (hsecond : (second.map Prod.fst).Nodup) {n : ν × ν'} (hn : n ∈ names) :
    ∃ v, Defines first n.1 v ∧ Defines second n.2 v := by
  obtain ⟨v, hv, hv'⟩ := h.exists_value hn
  exact ⟨v, defines_of_nodup hfirst hv, defines_of_nodup hsecond hv'⟩

end Names

def cppStruct (header : CppHeader) : PacketType → List Member
  | .cmd => header.cmdPacket
  | .tele => header.telemetryPacket

def upperPacket : PacketType → String
  | .cmd => "CMDPACKET"
  | .tele => "TELEMETRYPACKET"

def cppOffsetName (py : TextRuntime) (k : PacketType) (name : PyVal) : Gen String := do
  return "k" ++ packetName k ++ (← camel py name) ++ "Offset"

def cOffsetName (py : TextRuntime) (k : PacketType) (name : PyVal) : Gen String := do
  return "OU_" ++ upperPacket k ++ "_" ++ (← upperName py name) ++ "_OFFSET"

def offsetNames (py : TextRuntime) (k : PacketType) (name : PyVal) : Gen (String × String) := do
  return (← cppOffsetName py k name, ← cOffsetName py k name)

def allOffsetNames (py : TextRuntime) (fields : PacketType → List PyVal) :
    Gen (List (String × String)) := do
  return (← (fields .cmd).mapM (offsetNames py .cmd)) ++
    (← (fields .tele).mapM (offsetNames py .tele))

/-- The two headers state one protocol: each offset under the names that they make of its
field's, which stand for it alone where no name is made twice. -/
structure SameProtocol (py : TextRuntime) (cpp : CppHeader) (c : CHeader) : Prop where
  stx0 : cpp.kStx0 = c.ouStx0
  stx1 : cpp.kStx1 = c.ouStx1
  version : cpp.kProtocolVersion = c.ouProtocolVersion
  typeCmd : cpp.kTypeCmd = c.ouTypeCmd
  typeTele : cpp.kTypeTele = c.ouTypeTele
  numThrusters : cpp.kNumThrusters = c.ouNumThrusters
  frameOverhead : cpp.kFrameOverhead = c.ouFrameOverhead
  cmdSize : cpp.kCmdPayloadSize = c.ouCmdPayloadSize ∧ cpp.kCmdPayloadSize = c.assertedCmdSize
  teleSize : cpp.kTelePayloadSize = c.ouTelePayloadSize ∧
    cpp.kTelePayloadSize = c.assertedTeleSize
  cmdPacket : cpp.cmdPacket = c.cmdPacket
  telemetryPacket : cpp.telemetryPacket = c.telemetryPacket
  offsets : ∃ names, allOffsetNames py (fun k => (cppStruct cpp k).map Member.name) = .ok names ∧
    Paired names cpp.offsets c.offsets ∧
    ((cpp.offsets.map Prod.fst).Nodup → (c.offsets.map Prod.fst).Nodup → ∀ n ∈ names,
      ∃ offset, Defines cpp.offsets n.1 offset ∧ Defines c.offsets n.2 offset)

def docRows (docs : Docs) : PacketType → List DocRow
  | .cmd => docs.cmdRows
  | .tele => docs.teleRows

def docSize (docs : Docs) : PacketType → Int
  | .cmd => docs.cmdSize
  | .tele => docs.teleSize

structure Documents (row : DocRow) (m : Member) : Prop where
  name : row.name = m.name
  type : row.type = m.type
  count : row.count = m.count
  lastIndex : row.lastIndex = m.count.map fun n => n - 1
  notes : row.notes = m.notes

structure Declares (row : MsgField) (m : Member) : Prop where
  name : row.name = m.name
  type : row.type = m.type
  array : row.count = none ↔ m.count = none
  count : row.count.bind PyVal.keyInt = m.count

variable {py : TextRuntime} {schema : PyVal}

section Headers

theorem map_modeRow {entries : List (PyVal × PyVal)} {rows : List ModeRow}
    (h : entries.mapM modeRow = .ok rows) :
    rows.map (fun row => (row.name, row.val)) = entries := by
  have hforall := mapM_eq_ok.mp h
  clear h
  induction hforall with
  | nil => rfl
  | @cons entry row _ _ hrow _ ih =>
      rw [modeRow] at hrow
      split_ifs at hrow
      obtain ⟨notes, -, hrow⟩ := bind_eq_ok.mp hrow
      obtain rfl := pure_eq_ok.mp hrow
      rw [List.map_cons, ih]

theorem cppOffset_eq (py : TextRuntime) (k : PacketType) (f : LayoutField) :
    cppOffset py (packetName k) f =
      (do return (← cppOffsetName py k f.name, f.offset)) := by
  simp only [cppOffset, cppOffsetName, bind_assoc, pure_bind]

theorem cOffset_eq (py : TextRuntime) (k : PacketType) (f : LayoutField) :
    cOffset py (upperPacket k) f = (do return (← cOffsetName py k f.name, f.offset)) := by
  simp only [cOffset, cOffsetName, bind_assoc, pure_bind]

/-- The offsets of one frame in the two headers. -/
theorem paired_of_mapM {k : PacketType} {fields : List LayoutField}
    {cppEntries cEntries : List (String × Int)}
    (hcpp : fields.mapM (cppOffset py (packetName k)) = .ok cppEntries)
    (hc : fields.mapM (cOffset py (upperPacket k)) = .ok cEntries) :
    ∃ names, ((fields.map member).map Member.name).mapM (offsetNames py k) = .ok names ∧
      Paired names cppEntries cEntries := by
  rw [mapM_eq_ok] at hcpp hc
  simp only [mapM_eq_ok]
  induction hcpp generalizing cEntries with
  | nil =>
      cases hc
      exact ⟨[], .nil, rfl, rfl, rfl⟩
  | @cons f _ _ _ hcppEntry _ ih =>
      rcases hc with _ | ⟨hcEntry, hc⟩
      obtain ⟨names, hnames, hpaired⟩ := ih hc
      rw [cppOffset_eq, bind_eq_ok] at hcppEntry
      rw [cOffset_eq, bind_eq_ok] at hcEntry
      obtain ⟨cppName, hcppName, hcppEntry⟩ := hcppEntry
      obtain ⟨cName, hcName, hcEntry⟩ := hcEntry
      obtain rfl := pure_eq_ok.mp hcppEntry
      obtain rfl := pure_eq_ok.mp hcEntry
      refine ⟨(cppName, cName) :: names, .cons ?_ hnames, ?_⟩
      · simp only [offsetNames, member, hcppName, hcName, ok_bind]
        rfl
      · have hentry : Paired [(cppName, cName)] [(cppName, f.offset)] [(cName, f.offset)] :=
          ⟨rfl, rfl, rfl⟩
        have hentries := hentry.append hpaired
        exact hentries

theorem sameProtocol_of_render {cpp : CppHeader} {c : CHeader}
    (hcpp : renderCpp py schema = .ok cpp) (hc : renderC py schema = .ok c) :
    SameProtocol py cpp c := by
  simp only [renderCpp, renderC, bind_eq_ok, lift_eq_ok, pure_eq_ok] at hcpp hc
  obtain ⟨ctx, hctx, stx0, hstx0, stx1, hstx1, version, hversion, typeCmd, htypeCmd, typeTele,
    htypeTele, cmdOffsets, hcmdOffsets, teleOffsets, hteleOffsets, rfl⟩ := hcpp
  obtain ⟨ctx', hctx', stx0', hstx0', stx1', hstx1', version', hversion', typeCmd', htypeCmd',
    typeTele', htypeTele', cmdOffsets', hcmdOffsets', teleOffsets', hteleOffsets', rfl⟩ := hc
  obtain rfl := Except.ok.inj (hctx.symm.trans hctx')
  obtain ⟨cmdNames, hcmdNames, hcmd⟩ := paired_of_mapM (k := .cmd) hcmdOffsets hcmdOffsets'
  obtain ⟨teleNames, hteleNames, htele⟩ := paired_of_mapM (k := .tele) hteleOffsets hteleOffsets'
  have hpaired := hcmd.append htele
  refine ⟨Except.ok.inj (hstx0.symm.trans hstx0'), Except.ok.inj (hstx1.symm.trans hstx1'),
    Except.ok.inj (hversion.symm.trans hversion'), Except.ok.inj (htypeCmd.symm.trans htypeCmd'),
    Except.ok.inj (htypeTele.symm.trans htypeTele'), rfl, rfl, ⟨rfl, rfl⟩, ⟨rfl, rfl⟩, rfl, rfl,
    cmdNames ++ teleNames, ?_, hpaired, ?_⟩
  · simp only [allOffsetNames, cppStruct, hcmdNames, hteleNames, ok_bind]
    rfl
  · exact fun hfirst hsecond n hn => hpaired.defines hfirst hsecond hn

theorem returns_headers (py : TextRuntime) (schema : PyVal) :
    Returns (renderCpp py schema) ↔ Returns (renderC py schema) := by
  rcases hctx : makeCtx py schema with e | ctx
  · simp [renderCpp, renderC, returns_bind, lift_eq_ok, hctx]
  · rw [returns_renderCpp hctx, returns_renderC hctx]

end Headers

def docOffset (py : TextRuntime) (k : PacketType) (row : DocRow) : Gen (String × Int) := do
  return (← cppOffsetName py k row.name, row.offset)

def docOffsets (py : TextRuntime) (docs : Docs) : Gen (List (String × Int)) := do
  return (← (docRows docs .cmd).mapM (docOffset py .cmd)) ++
    (← (docRows docs .tele).mapM (docOffset py .tele))

theorem members_of_renderCpp {header : CppHeader} (h : renderCpp py schema = .ok header) :
    ∃ ctx, makeCtx py schema = .ok ctx ∧
      (∀ k, cppStruct header k = (ctxFields ctx k).map member) ∧
      (∀ k, cppPayloadSize header k = ctxSize ctx k) ∧
      ∃ offsets : PacketType → List (String × Int),
        (∀ k, (ctxFields ctx k).mapM (cppOffset py (packetName k)) = .ok (offsets k)) ∧
        header.offsets = offsets .cmd ++ offsets .tele := by
  simp only [renderCpp, bind_eq_ok, lift_eq_ok, pure_eq_ok] at h
  obtain ⟨ctx, hctx, -, -, -, -, -, -, -, -, -, -, cmdOffsets, hcmd, teleOffsets, htele, rfl⟩ := h
  refine ⟨ctx, hctx, fun k => by cases k <;> rfl, fun k => by cases k <;> rfl,
    fun | .cmd => cmdOffsets | .tele => teleOffsets, ?_, rfl⟩
  intro k
  cases k with
  | cmd => exact hcmd
  | tele => exact htele

theorem rows_of_renderMd {docs : Docs} (h : renderMd py schema = .ok docs) :
    ∃ ctx, makeCtx py schema = .ok ctx ∧
      (∀ k, docRows docs k = (ctxFields ctx k).map (docRow py)) ∧
      (∀ k, docSize docs k = ctxSize ctx k) ∧
      modeItems ctx.modeValues = .ok (docs.modes.map fun row => (row.name, row.val)) := by
  simp only [renderMd, bind_eq_ok, lift_eq_ok, pure_eq_ok] at h
  obtain ⟨ctx, hctx, -, -, -, -, entries, hentries, modes, hmodes, rfl⟩ := h
  refine ⟨ctx, hctx, fun k => by cases k <;> rfl, fun k => by cases k <;> rfl, ?_⟩
  rw [hentries, map_modeRow hmodes]

theorem modes_of_renderMsg {frameName : String} {file : MsgFile}
    (h : renderMsg py schema frameName = .ok file) :
    ∃ ctx, makeCtx py schema = .ok ctx ∧ modeItems ctx.modeValues = .ok file.modes := by
  simp only [renderMsg, bind_eq_ok, lift_eq_ok, pure_eq_ok] at h
  obtain ⟨ctx, hctx, -, -, -, -, -, -, modes, hmodes, -, -, rfl⟩ := h
  exact ⟨ctx, hctx, hmodes⟩

theorem docOffsets_eq {docs : Docs} {ctx : Ctx} {offsets : PacketType → List (String × Int)}
    (hrows : ∀ k, docRows docs k = (ctxFields ctx k).map (docRow py))
    (hoffsets : ∀ k, (ctxFields ctx k).mapM (cppOffset py (packetName k)) = .ok (offsets k)) :
    docOffsets py docs = .ok (offsets .cmd ++ offsets .tele) := by
  have hframe : ∀ k, (docRows docs k).mapM (docOffset py k) = .ok (offsets k) := by
    intro k
    rw [← hoffsets k, hrows k, List.mapM_map]
    refine congrArg (fun f => (ctxFields ctx k).mapM f) (funext fun f => ?_)
    exact (cppOffset_eq py k f).symm
  simp only [docOffsets, hframe, ok_bind]
  rfl

theorem documents_docRow (py : TextRuntime) (f : LayoutField) :
    Documents (docRow py f) (member f) := by
  refine ⟨rfl, rfl, rfl, ?_, rfl⟩
  by_cases hmany : f.count > 1
  · simp only [docRow, member, if_pos hmany, Option.map_some]
  · simp only [docRow, member, if_neg hmany, Option.map_none]

section Messages

variable {field : PyVal} {fields : List PyVal} {f : LayoutField} {layout : List LayoutField}
  {offset : Int}

def IntegerCount (py : TextRuntime) (field : PyVal) : Prop :=
  ∀ c, field.get (.str "count") (.int 1) = .ok c → aboveOne py c = .ok true → Number c

/-- The line of a field agrees with its member just where a count above one is an integer. -/
theorem declares_iff
    (hfloat : ∀ bits n, py.intOfFloat bits = .ok n → py.floatAboveOne bits = false → n ≤ 1)
    (hlaid : LaidOut py.toRuntime offset field f) {row : MsgField}
    (hrow : msgField py field = .ok row) : Declares row (member f) ↔ IntegerCount py field := by
  obtain ⟨c, hget, hint⟩ := hlaid.count_eq
  have hcount : IntegerCount py field ↔ (aboveOne py c = .ok true → Number c) := by
    constructor
    · exact fun h => h c hget
    · intro h c' hget'
      obtain rfl := Except.ok.inj (hget.symm.trans hget')
      exact h
  simp only [msgField, hget, hlaid.type_eq, hlaid.name_eq, ok_bind, bind_eq_ok, pure_eq_ok] at hrow
  obtain ⟨many, hmany, rfl⟩ := hrow
  rw [hcount, hmany]
  rcases hkey : c.keyInt with _ | n
  · have hfalse : ¬Number c := by
      rintro ⟨n, hn⟩
      rw [hkey] at hn
      cases hn
    cases many with
    | true =>
        refine iff_of_false (fun h => ?_) fun h => hfalse (h rfl)
        have hnone : (none : Option Int) = (member f).count := by
          rw [← h.count, if_pos rfl, Option.bind_some, hkey]
        have harray := h.array.mpr hnone.symm
        rw [if_pos rfl] at harray
        cases harray
    | false =>
        have hle : ¬f.count > 1 := by
          cases c with
          | float bits =>
              have hnot : py.floatAboveOne bits = false := Except.ok.inj hmany
              have := hfloat bits f.count hint hnot
              omega
          | str s => cases hmany
          | list items => cases hint
          | dict entries => cases hint
          | none => cases hint
          | bool b => cases hkey
          | int n => cases hkey
        refine iff_of_true ⟨rfl, rfl, ?_, ?_⟩ fun h => by cases h
        · simp only [member, if_neg hle, Bool.false_eq_true, if_false]
        · simp only [member, if_neg hle, Bool.false_eq_true, if_false, Option.bind_none]
  · have hn : f.count = n := Except.ok.inj (hint.symm.trans (int_of_keyInt py.toRuntime hkey))
    have hdecide : many = decide (n > 1) :=
      (Except.ok.inj ((aboveOne_of_keyInt py hkey).symm.trans hmany)).symm
    refine iff_of_true ⟨rfl, rfl, ?_, ?_⟩ fun _ => ⟨n, hkey⟩
    · by_cases hmore : n > 1
      · simp [member, hn, hdecide, hmore]
      · simp [member, hn, hdecide, hmore]
    · by_cases hmore : n > 1
      · simp [member, hn, hdecide, hmore, hkey]
      · simp [member, hn, hdecide, hmore]

theorem forall₂_declares_iff
    (hfloat : ∀ bits n, py.intOfFloat bits = .ok n → py.floatAboveOne bits = false → n ≤ 1)
    (hlaid : List.Forall₂ (fun field f => LaidOut py.toRuntime f.offset field f) fields layout)
    {rows : List MsgField} (hrows : fields.mapM (msgField py) = .ok rows) :
    List.Forall₂ Declares rows (layout.map member) ↔ ∀ field ∈ fields, IntegerCount py field := by
  have hforall := mapM_eq_ok.mp hrows
  clear hrows
  induction hlaid generalizing rows with
  | nil =>
      rcases hforall with _ | _
      exact iff_of_true .nil (fun _ h => absurd h List.not_mem_nil)
  | cons hfield _ ih =>
      rcases hforall with _ | ⟨hrow, hrest⟩
      rw [List.map_cons, List.forall₂_cons, List.forall_mem_cons]
      exact and_congr (declares_iff hfloat hfield hrow) (ih hrest)

theorem map_name_type
    (hlaid : List.Forall₂ (fun field f => LaidOut py.toRuntime f.offset field f) fields layout)
    {rows : List MsgField} (hrows : fields.mapM (msgField py) = .ok rows) :
    rows.map (fun row => (row.name, row.type)) =
      (layout.map member).map fun m => (m.name, m.type) := by
  have hforall := mapM_eq_ok.mp hrows
  clear hrows
  induction hlaid generalizing rows with
  | nil =>
      rcases hforall with _ | _
      rfl
  | cons hfield _ ih =>
      rcases hforall with _ | ⟨hrow, hrest⟩
      simp only [msgField, hfield.type_eq, hfield.name_eq, ok_bind, bind_eq_ok, pure_eq_ok] at hrow
      obtain ⟨count, -, many, -, rfl⟩ := hrow
      rw [List.map_cons, List.map_cons, List.map_cons, ih hrest]
      rfl

end Messages

theorem integerCount_toPy (py : TextRuntime) (e : FieldEntry) : IntegerCount py e.toPy := by
  intro c hget _
  obtain ⟨c', hget', hkey⟩ := get_of_fieldCount (fieldCount_toPy e)
  obtain rfl := Except.ok.inj (hget.symm.trans hget')
  exact ⟨_, hkey⟩

end RovSdk.ArtifactAgreement
