import RovSdk.ArtifactAgreement
import RovSdk.GeneratorRuns
import RovSdk.HeaderReader
import RovSdk.SourceNames

namespace RovSdk.PublishedHeaders

open RovSdk.Results
open RovSdk.Packets (PacketType)
open RovSdk.PythonValues
open RovSdk.SchemaLayout
open RovSdk.SchemaValidator
open RovSdk.CodeGenerator
open RovSdk.FrameLayouts
open RovSdk.GeneratorContext
open RovSdk.GeneratedStructs
open RovSdk.ArtifactAgreement
open RovSdk.SourceTokens
open RovSdk.HeaderText
open RovSdk.HeaderReader
open RovSdk.SourceNames
open RovSdk.GoldenHeader (decimal decimal_toDigits)
open RovSdk.ProtocolSchema
open RovSdk.GeneratorRuns
open RovSdk.StagedWrites (Readable Holds)

/-- A field whose name is free, and whose notes stay in their comment in either header. -/
structure PlainField (str : PyVal → List Char) (f : LayoutField) : Prop where
  name : FreeName f.name
  oneLine : OneLine (str f.notes)
  star : ¬['*', '/'] <:+: str f.notes
  ended : continued (str f.notes) = false

theorem plainField_iff {str : PyVal → List Char} {f : LayoutField} :
    PlainField str f ↔ FreeName f.name ∧ OneLine (str f.notes) ∧ ¬['*', '/'] <:+: str f.notes ∧
      continued (str f.notes) = false :=
  ⟨fun h => ⟨h.name, h.oneLine, h.star, h.ended⟩, fun h => ⟨h.1, h.2.1, h.2.2.1, h.2.2.2⟩⟩

instance (str : PyVal → List Char) (f : LayoutField) : Decidable (PlainField str f) :=
  decidable_of_iff _ plainField_iff.symm

def camelNames (py : TextRuntime) (layout : List LayoutField) : List String :=
  layout.filterMap fun f => (camel py f.name).toOption

def upperNames (py : TextRuntime) (layout : List LayoutField) : List String :=
  layout.filterMap fun f => (upperName py f.name).toOption

/-- Plain fields whose names remain distinct in either header. -/
structure PlainLayout (py : TextRuntime) (str : PyVal → List Char) (layout : List LayoutField) :
    Prop where
  fields : ∀ f ∈ layout, PlainField str f
  camel : (camelNames py layout).Nodup
  upper : (upperNames py layout).Nodup

def PlainSchema (py : TextRuntime) (str : PyVal → List Char) (schema : PyVal) : Prop :=
  ∀ k frame layout, frameOf schema (packetName k) = .ok frame →
    layoutOfFrame py.toRuntime frame = .ok layout → PlainLayout py str layout

variable {py : TextRuntime} {str : PyVal → List Char} {schema : PyVal} {ctx : Ctx}
  {cpp : CppHeader} {c : CHeader}

section Rendering

theorem exists_of_mem_toDigits {n : Nat} {d : Char} (h : d ∈ Nat.toDigits 16 n) :
    ∃ m < 16, d = m.digitChar := by
  induction n using Nat.strong_induction_on with
  | _ n ih =>
      rcases Nat.lt_or_ge n 16 with hlt | hge
      · rw [Nat.toDigits_of_lt_base hlt, List.mem_singleton] at h
        exact ⟨n, hlt, h⟩
      · rw [Nat.toDigits_of_base_le (by decide) hge, List.mem_append, List.mem_singleton] at h
        rcases h with h | h
        · exact ih (n / 16) (by omega) h
        · exact ⟨n % 16, by omega, h⟩

theorem isValue_hexText {width : Nat} {v : PyVal} {text : List Char}
    (h : hexText width v = .ok text) : IsValue text := by
  have hupper : ∀ m < 16, isWordChar m.digitChar.toUpper = true := by decide
  rw [hexText] at h
  split at h
  next => cases h
  next n _ =>
    obtain rfl := Except.ok.inj h
    refine isValue_of_mem ?_ ?_
    · exact List.append_ne_nil_of_left_ne_nil (List.append_ne_nil_of_left_ne_nil
        (List.append_ne_nil_of_left_ne_nil (List.cons_ne_nil _ _) _) _) _
    · intro d hd
      simp only [List.mem_append, List.mem_cons, List.not_mem_nil, or_false] at hd
      rcases hd with (((rfl | rfl) | hd) | hd) | hd
      · exact .inr rfl
      · exact .inr rfl
      · split_ifs at hd
        · exact .inl (List.mem_singleton.mp hd)
        · exact absurd hd List.not_mem_nil
      · rw [List.eq_of_mem_replicate hd]
        exact .inr rfl
      · obtain ⟨e, he, rfl⟩ := List.mem_map.mp hd
        obtain ⟨m, hm, rfl⟩ := exists_of_mem_toDigits he
        exact .inr (hupper m hm)

theorem exists_elemType {t : PyVal} {n : Int} (h : typeSize t = .ok n) :
    ∃ e, elemType t = some e ∧ n = e.size := by
  rw [typeSize] at h
  rw [elemType]
  split_ifs at h ⊢
  · exact ⟨.u8, rfl, (Except.ok.inj h).symm⟩
  · exact ⟨.f32, rfl, (Except.ok.inj h).symm⟩

/-- Also the entries of a schema that was not checked are of the two types. -/
theorem sized_of_layoutOfFrame {frame : PyVal} {layout : List LayoutField}
    (h : layoutOfFrame py.toRuntime frame = .ok layout) : ∀ f ∈ layout, Sized f := by
  simp only [layoutOfFrame, bind_eq_ok] at h
  obtain ⟨v, hv, items, hitems, hlayout⟩ := h
  intro f hf
  obtain ⟨field, -, hlaid⟩ := exists_of_mem_right (laidOut_of_computeLayoutFrom hlayout).1 hf
  exact ⟨exists_elemType hlaid.elementSize_eq, hlaid.size_eq⟩

theorem sized_of_makeCtx (h : makeCtx py schema = .ok ctx) (k : PacketType) :
    ∀ f ∈ ctxFields ctx k, Sized f := by
  obtain ⟨frame, hframe, hlayout, -⟩ := (fromSchema_of_makeCtx h).packet_eq k
  exact sized_of_layoutOfFrame hlayout

theorem plainMember {f : LayoutField} (hpy : KeepsWords py str) (h : PlainField str f)
    (hsized : Sized f) :
    PlainMember str (member f) where
  type := by
    obtain ⟨t, htype, -⟩ := hsized.elemType
    rw [member, htype]
    exact Option.some_ne_none t
  name := isIdentifier_of_freeName hpy h.name
  count n hn := by
    rw [member] at hn
    split_ifs at hn
    obtain rfl := Option.some.inj hn
    omega
  oneLine := h.oneLine
  star := h.star
  ended := h.ended

theorem plain_of_makeCtx (h : makeCtx py schema = .ok ctx)
    (hplain : PlainSchema py str schema) (k : PacketType) :
    PlainLayout py str (ctxFields ctx k) := by
  obtain ⟨frame, hframe, hlayout, -⟩ := (fromSchema_of_makeCtx h).packet_eq k
  exact hplain k frame _ hframe hlayout

theorem plainMembers (hpy : KeepsWords py str) (h : makeCtx py schema = .ok ctx)
    (hplain : PlainSchema py str schema) :
    ∀ m ∈ ctx.cmdFields.map member ++ ctx.teleFields.map member, PlainMember str m := by
  have hfields : ∀ k, ∀ m ∈ (ctxFields ctx k).map member, PlainMember str m := by
    intro k m hm
    obtain ⟨f, hf, rfl⟩ := List.mem_map.mp hm
    exact plainMember hpy ((plain_of_makeCtx h hplain k).fields f hf) (sized_of_makeCtx h k f hf)
  exact List.forall_mem_append.mpr ⟨hfields .cmd, hfields .tele⟩

theorem isWord_of_offsets {fields : List LayoutField} {offsets : List (String × Int)}
    {name : LayoutField → Gen (String × Int)}
    (hname : ∀ f ∈ fields, ∀ o, name f = .ok o → IsWord o.1.toList)
    (h : fields.mapM name = .ok offsets) : ∀ o ∈ offsets, IsWord o.1.toList := by
  intro o ho
  obtain ⟨f, hf, hof⟩ := exists_of_mem_right (mapM_eq_ok.mp h) ho
  exact hname f hf o hof

theorem isWord_append {first last : String} {name : String} (hfirst : IsWord first.toList)
    (hname : name.toList.all isWordChar = true) (hlast : last.toList.all isWordChar = true) :
    IsWord (first ++ name ++ last).toList := by
  rw [String.toList_append, String.toList_append]
  refine ⟨?_, ?_⟩
  · exact List.append_ne_nil_of_left_ne_nil (List.append_ne_nil_of_left_ne_nil hfirst.1 _) _
  · rw [List.all_append, List.all_append, hfirst.2, hname, hlast]
    rfl

theorem isWord_cppOffset (hpy : KeepsWords py str) {f : LayoutField} (hf : PlainField str f)
    (k : PacketType) {o : String × Int} (h : cppOffset py (packetName k) f = .ok o) :
    IsWord o.1.toList := by
  rw [cppOffset, bind_eq_ok] at h
  obtain ⟨name, hname, ho⟩ := h
  obtain rfl := pure_eq_ok.mp ho
  refine isWord_append ?_ (all_camel hpy hf.name hname) (by decide +kernel)
  cases k <;> decide +kernel

theorem isWord_cOffset (hpy : KeepsWords py str) {f : LayoutField} (hf : PlainField str f)
    {packet : String} (hpacket : packet ∈ ["CMDPACKET", "TELEMETRYPACKET"]) {o : String × Int}
    (h : cOffset py packet f = .ok o) : IsWord o.1.toList := by
  rw [cOffset, bind_eq_ok] at h
  obtain ⟨name, hname, ho⟩ := h
  obtain rfl := pure_eq_ok.mp ho
  refine isWord_append ?_ (all_upperName hpy hf.name hname) (by decide +kernel)
  rcases List.mem_pair.mp hpacket with rfl | rfl <;> decide +kernel

theorem plainCpp_of_render (hpy : KeepsWords py str) (h : renderCpp py schema = .ok cpp)
    (hplain : PlainSchema py str schema) : PlainCpp str cpp := by
  simp only [renderCpp, bind_eq_ok, lift_eq_ok, pure_eq_ok] at h
  obtain ⟨ctx, hctx, stx0, hstx0, stx1, hstx1, version, hversion, typeCmd, htypeCmd, typeTele,
    htypeTele, cmdOffsets, hcmd, teleOffsets, htele, rfl⟩ := h
  have hfields := fun k => (plain_of_makeCtx hctx hplain k).fields
  refine ⟨?_, plainMembers hpy hctx hplain, ?_, ?_⟩
  · simp only [List.forall_mem_cons]
    exact ⟨isValue_hexText hstx0, isValue_hexText hstx1, isValue_hexText hversion,
      isValue_hexText htypeCmd, isValue_hexText htypeTele,
      fun _ hmem => absurd hmem List.not_mem_nil⟩
  · rw [List.forall_mem_append]
    exact ⟨isWord_of_offsets (fun f hf _ => isWord_cppOffset hpy (hfields .cmd f hf) .cmd) hcmd,
      isWord_of_offsets (fun f hf _ => isWord_cppOffset hpy (hfields .tele f hf) .tele) htele⟩
  · have hcmdLength := (mapM_eq_ok.mp hcmd).length_eq
    have hteleLength := (mapM_eq_ok.mp htele).length_eq
    simp only [List.length_append, List.length_map]
    omega

theorem plainC_of_render (hpy : KeepsWords py str) (h : renderC py schema = .ok c)
    (hplain : PlainSchema py str schema) : PlainC str c := by
  simp only [renderC, bind_eq_ok, lift_eq_ok, pure_eq_ok] at h
  obtain ⟨ctx, hctx, stx0, hstx0, stx1, hstx1, version, hversion, typeCmd, htypeCmd, typeTele,
    htypeTele, cmdOffsets, hcmd, teleOffsets, htele, rfl⟩ := h
  have hfields := fun k => (plain_of_makeCtx hctx hplain k).fields
  refine ⟨?_, plainMembers hpy hctx hplain, ?_⟩
  · simp only [List.forall_mem_cons]
    exact ⟨isValue_hexText hstx0, isValue_hexText hstx1, isValue_hexText hversion,
      isValue_hexText htypeCmd, isValue_hexText htypeTele,
      fun _ hmem => absurd hmem List.not_mem_nil⟩
  · have hname : ∀ k, ∀ packet ∈ ["CMDPACKET", "TELEMETRYPACKET"], ∀ f ∈ ctxFields ctx k, ∀ o,
        cOffset py packet f = .ok o → IsWord o.1.toList := fun k _ hpacket f hf _ =>
      isWord_cOffset hpy (hfields k f hf) hpacket
    rw [List.forall_mem_append]
    exact ⟨isWord_of_offsets (hname .cmd _ (by decide)) hcmd,
      isWord_of_offsets (hname .tele _ (by decide)) htele⟩

end Rendering

section Names

def fixedNames : List (List Char × List Char) :=
  [("kStx0".toList, "OU_STX0".toList), ("kStx1".toList, "OU_STX1".toList),
    ("kProtocolVersion".toList, "OU_PROTOCOL_VERSION".toList),
    ("kTypeCmd".toList, "OU_TYPE_CMD".toList), ("kTypeTele".toList, "OU_TYPE_TELE".toList),
    ("kNumThrusters".toList, "OU_NUM_THRUSTERS".toList),
    ("kFrameOverhead".toList, "OU_FRAME_OVERHEAD".toList),
    ("kCmdPayloadSize".toList, "OU_CMD_PAYLOAD_SIZE".toList),
    ("kTelePayloadSize".toList, "OU_TELE_PAYLOAD_SIZE".toList)]

theorem map_fst_cppConstants (h : CppHeader) :
    (cppConstants h).map Prod.fst = fixedNames.map Prod.fst := rfl

theorem map_fst_cConstants (h : CHeader) :
    (cConstants h).map Prod.fst = fixedNames.map Prod.snd := rfl

/-- Names between one text and another are distinct where the names are. -/
theorem nodup_framed {first last : String} {names : List String} (h : names.Nodup) :
    (names.map fun s => first ++ s ++ last).Nodup :=
  h.map fun _ _ heq => (String.append_right_inj first).mp ((String.append_left_inj last).mp heq)

/-- Fixed names and two families that each have a beginning of their own. -/
theorem nodup_names {fixed : List (List Char)} {p q last : String} {cmd tele : List String}
    (hfixed : fixed.Nodup) (hbegin : ∀ n ∈ fixed, ¬p.toList <+: n ∧ ¬q.toList <+: n)
    (hpq : ¬p.toList <+: q.toList) (hqp : ¬q.toList <+: p.toList) (hcmd : cmd.Nodup)
    (htele : tele.Nodup) :
    (fixed ++ ((cmd.map fun s => p ++ s ++ last) ++ tele.map fun s => q ++ s ++ last).map
      String.toList).Nodup := by
  have hfront : ∀ first (names : List String) n,
      n ∈ (names.map fun s => first ++ s ++ last).map String.toList → first.toList <+: n := by
    intro first names n hn
    rw [List.map_map] at hn
    obtain ⟨s, -, rfl⟩ := List.mem_map.mp hn
    rw [Function.comp_apply, String.toList_append, String.toList_append, List.append_assoc]
    exact List.prefix_append _ _
  have hoffsets : ((cmd.map fun s => p ++ s ++ last) ++
      tele.map fun s => q ++ s ++ last).Nodup := by
    rw [List.nodup_append]
    refine ⟨nodup_framed hcmd, nodup_framed htele, ?_⟩
    rintro n hn n' hn' rfl
    have hn := hfront p cmd _ (List.mem_map_of_mem hn)
    have hn' := hfront q tele _ (List.mem_map_of_mem hn')
    exact (List.prefix_or_prefix_of_prefix hn hn').elim hpq hqp
  rw [List.nodup_append]
  refine ⟨hfixed, hoffsets.map fun _ _ => String.toList_inj.mp, ?_⟩
  rintro n hn n' hn' rfl
  rw [List.map_append, List.mem_append] at hn'
  exact hn'.elim (fun h => (hbegin n hn).1 (hfront p cmd n h))
    fun h => (hbegin n hn).2 (hfront q tele n h)

theorem map_fst_offsets {name : LayoutField → Gen (String × Int)}
    {made : LayoutField → Gen String} {mk : String → String}
    (hname : ∀ f, name f = (do return (mk (← made f), f.offset)))
    {fields : List LayoutField} {entries : List (String × Int)}
    (h : fields.mapM name = .ok entries) :
    entries.map Prod.fst = (fields.filterMap fun f => (made f).toOption).map mk := by
  have hforall := mapM_eq_ok.mp h
  clear h
  induction hforall with
  | nil => rfl
  | @cons f entry _ _ hentry _ ih =>
      rw [hname, bind_eq_ok] at hentry
      obtain ⟨s, hs, hentry⟩ := hentry
      obtain rfl := pure_eq_ok.mp hentry
      have hsome : (made f).toOption = some s := congrArg Except.toOption hs
      simp only [List.filterMap_cons, hsome, List.map_cons, ih]

theorem map_fst_offsetConstant (offsets : List (String × Int)) :
    (offsets.map offsetConstant).map Prod.fst = (offsets.map Prod.fst).map String.toList := by
  rw [List.map_map, List.map_map]
  rfl

theorem nodup_cppReading (h : renderCpp py schema = .ok cpp) (hplain : PlainSchema py str schema) :
    ((cppReading str cpp).constants.map Prod.fst).Nodup := by
  simp only [renderCpp, bind_eq_ok, lift_eq_ok, pure_eq_ok] at h
  obtain ⟨ctx, hctx, -, -, -, -, -, -, -, -, -, -, cmdOffsets, hcmd, teleOffsets, htele, rfl⟩ := h
  have hlayout := plain_of_makeCtx hctx hplain
  rw [cppReading, List.map_append, map_fst_cppConstants, map_fst_offsetConstant, List.map_append,
    map_fst_offsets (fun _ => rfl) hcmd, map_fst_offsets (fun _ => rfl) htele]
  refine nodup_names ?_ ?_ ?_ ?_ (hlayout .cmd).camel (hlayout .tele).camel
  all_goals decide +kernel

theorem nodup_cReading (h : renderC py schema = .ok c) (hplain : PlainSchema py str schema) :
    ((cReading str c).constants.map Prod.fst).Nodup := by
  simp only [renderC, bind_eq_ok, lift_eq_ok, pure_eq_ok] at h
  obtain ⟨ctx, hctx, -, -, -, -, -, -, -, -, -, -, cmdOffsets, hcmd, teleOffsets, htele, rfl⟩ := h
  have hlayout := plain_of_makeCtx hctx hplain
  rw [cReading, List.map_append, map_fst_cConstants, map_fst_offsetConstant, List.map_append,
    map_fst_offsets (fun _ => rfl) hcmd, map_fst_offsets (fun _ => rfl) htele]
  refine nodup_names ?_ ?_ ?_ ?_ (hlayout .cmd).upper (hlayout .tele).upper
  all_goals decide +kernel

end Names

section Texts

def memberNames (r : Reading) (k : PacketType) : List PyVal :=
  ((r.structs.lookup (packetName k).toList).getD []).map fun m => .str (String.ofList m.name)

def constantNames (py : TextRuntime) (r : Reading) : Gen (List (List Char × List Char)) := do
  return fixedNames ++
    (← allOffsetNames py (memberNames r)).map (Prod.map String.toList String.toList)

/-- The two headers declare the same structs, and constants with the same values under names
that pair up, none of them twice; and the C header asserts the payload sizes that the C++
header states. -/
structure SameDeclarations (py : TextRuntime) (cpp c : Reading) : Prop where
  structs : cpp.structs = c.structs
  constants : ∃ names, constantNames py cpp = .ok names ∧ Paired names cpp.constants c.constants
  once : (cpp.constants.map Prod.fst).Nodup ∧ (c.constants.map Prod.fst).Nodup
  sizes : c.sizes.map (fun size => (size.1, some size.2)) =
    [("CmdPacket".toList, cpp.constants.lookup "kCmdPayloadSize".toList),
      ("TelemetryPacket".toList, cpp.constants.lookup "kTelePayloadSize".toList)]

theorem lookup_payloadSizes (str : PyVal → List Char) (h : CppHeader) :
    (cppReading str h).constants.lookup "kCmdPayloadSize".toList =
        some (tokensOf (intText h.kCmdPayloadSize)) ∧
      (cppReading str h).constants.lookup "kTelePayloadSize".toList =
        some (tokensOf (intText h.kTelePayloadSize)) :=
  ⟨rfl, rfl⟩

theorem memberNames_cppReading (hnames : ∀ k, ∀ m ∈ cppStruct cpp k, FreeName m.name)
    (hpy : KeepsWords py str) :
    memberNames (cppReading str cpp) = fun k => (cppStruct cpp k).map Member.name := by
  funext k
  have hstruct : memberNames (cppReading str cpp) k = ((cppStruct cpp k).map (memberDecl str)).map
      fun m => .str (String.ofList m.name) := by
    cases k with
    | cmd => rfl
    | tele => rfl
  rw [hstruct, List.map_map]
  refine List.map_congr_left fun m hm => ?_
  obtain ⟨s, hs, -⟩ := hnames k m hm
  rw [Function.comp_apply, memberDecl, hs, hpy.str_text, String.ofList_toList]

theorem paired_cppConstants (h : SameProtocol py cpp c) :
    Paired fixedNames (cppConstants cpp) (cConstants c) where
  firstNames := map_fst_cppConstants cpp
  secondNames := map_fst_cConstants c
  values := by
    simp only [cppConstants, cConstants, List.map_cons, List.map_nil, h.stx0, h.stx1, h.version,
      h.typeCmd, h.typeTele, h.numThrusters, h.frameOverhead, h.cmdSize.1, h.teleSize.1]

theorem paired_offsetConstants {names : List (String × String)}
    {offsets offsets' : List (String × Int)} (h : Paired names offsets offsets') :
    Paired (names.map (Prod.map String.toList String.toList)) (offsets.map offsetConstant)
      (offsets'.map offsetConstant) where
  firstNames := by
    have hnames := congrArg (List.map String.toList) h.firstNames
    rw [List.map_map, List.map_map] at hnames ⊢
    exact hnames
  secondNames := by
    have hnames := congrArg (List.map String.toList) h.secondNames
    rw [List.map_map, List.map_map] at hnames ⊢
    exact hnames
  values := by
    have hvalues := congrArg (List.map fun n => tokensOf (intText n)) h.values
    rw [List.map_map, List.map_map] at hvalues ⊢
    exact hvalues

theorem freeName_of_mem_cppStruct (h : renderCpp py schema = .ok cpp)
    (hplain : PlainSchema py str schema) (k : PacketType) :
    ∀ m ∈ cppStruct cpp k, FreeName m.name := by
  obtain ⟨ctx, hctx, hmembers, -⟩ := members_of_renderCpp h
  intro m hm
  rw [hmembers k] at hm
  obtain ⟨f, hf, rfl⟩ := List.mem_map.mp hm
  exact ((plain_of_makeCtx hctx hplain k).fields f hf).name

theorem sameDeclarations_of_render (hpy : KeepsWords py str)
    (hplain : PlainSchema py str schema) (hcpp : renderCpp py schema = .ok cpp)
    (hc : renderC py schema = .ok c) :
    SameDeclarations py (cppReading str cpp) (cReading str c) := by
  have hsame := sameProtocol_of_render hcpp hc
  refine ⟨?_, ?_, ⟨nodup_cppReading hcpp hplain, nodup_cReading hc hplain⟩, ?_⟩
  · rw [cppReading, cReading, hsame.cmdPacket, hsame.telemetryPacket]
  · obtain ⟨names, hnames, hpaired, -⟩ := hsame.offsets
    refine ⟨_, ?_, (paired_cppConstants hsame).append (paired_offsetConstants hpaired)⟩
    rw [constantNames, memberNames_cppReading (freeName_of_mem_cppStruct hcpp hplain) hpy, hnames,
      ok_bind]
    rfl
  · obtain ⟨hcmd, htele⟩ := lookup_payloadSizes str cpp
    rw [hcmd, htele, hsame.cmdSize.2, hsame.teleSize.2]
    rfl

/-- The texts of the two headers of a schema read back as what the templates were given,
and declare the same. -/
theorem header_texts_agree (hpy : KeepsWords py str)
    (hplain : PlainSchema py str schema) (hcpp : renderCpp py schema = .ok cpp)
    (hc : renderC py schema = .ok c) :
    readHeader (cppText str cpp) = cppReading str cpp ∧
      readHeader (cText str c) = cReading str c ∧
      SameDeclarations py (readHeader (cppText str cpp)) (readHeader (cText str c)) := by
  have hcppReads := readHeader_cppText (plainCpp_of_render hpy hcpp hplain)
  have hcReads := readHeader_cText (plainC_of_render hpy hc hplain)
  refine ⟨hcppReads, hcReads, ?_⟩
  rw [hcppReads, hcReads]
  exact sameDeclarations_of_render hpy hplain hcpp hc

theorem plain_protocolYaml : PlainSchema plainRuntime plainText protocolYaml := by
  intro k frame layout hframe hlayout
  cases k with
  | cmd =>
      obtain rfl := Except.ok.inj hframe
      obtain rfl := Except.ok.inj hlayout
      refine ⟨?_, ?_, ?_⟩ <;> decide +kernel
  | tele =>
      obtain rfl := Except.ok.inj hframe
      obtain rfl := Except.ok.inj hlayout
      refine ⟨?_, ?_, ?_⟩ <;> decide +kernel

theorem protocol_texts_agree : ∃ cpp c, renderCpp plainRuntime protocolYaml = .ok cpp ∧
    renderC plainRuntime protocolYaml = .ok c ∧
    SameDeclarations plainRuntime (readHeader (cppText plainText cpp))
      (readHeader (cText plainText c)) := by
  obtain ⟨cpp, hcpp⟩ : ∃ cpp, renderCpp plainRuntime protocolYaml = .ok cpp := ⟨_, rfl⟩
  obtain ⟨c, hc⟩ : ∃ c, renderC plainRuntime protocolYaml = .ok c := ⟨_, rfl⟩
  exact ⟨cpp, c, hcpp, hc,
    (header_texts_agree keepsWords_plainRuntime plain_protocolYaml hcpp hc).2.2⟩

end Texts

section Asserts

def numberOf : List Token → Option Int
  | [.word digits] => (decimal digits).map Int.ofNat
  | [.sign '-', .word digits] => (decimal digits).map fun n => -Int.ofNat n
  | _ => none

def sizeofType (type : List Char) : Option Int :=
  if type = "uint8_t".toList then some 1
  else if type = "float".toList then some 4
  else none

def sizeofDecl (m : MemberDecl) : Option Int := do
  let size ← sizeofType m.type
  match m.count with
  | none => return size
  | some count => return size * (← decimal count)

def sizeofDecls (members : List MemberDecl) : Option Int :=
  (members.mapM sizeofDecl).map List.sum

/-- Each struct has the size that is asserted of it, and is no larger than objects can be. -/
def AssertsHold (largest : Int) (r : Reading) : Prop :=
  ∀ size ∈ r.sizes, ∃ members n, (size.1, members) ∈ r.structs ∧
    sizeofDecls members = some n ∧ n ≤ largest ∧ numberOf size.2 = some n

theorem numberOf_intText (n : Int) : numberOf (tokensOf (intText n)) = some n := by
  have hdigits := reads_word (isWord_toDigits n.natAbs)
  rw [intText]
  split_ifs with hneg
  · have hminus : Reads (.code []) ['-'] [.sign '-'] (.code []) := reads_sign (by decide) []
    rw [tokensOf_eq (hminus.append hdigits), endWord_of_ne_nil Nat.toDigits_ne_nil,
      List.append_nil, List.singleton_append, numberOf, decimal_toDigits, Option.map_some]
    congr 1
    exact Int.neg_eq_comm.mp (Int.ofNat_natAbs_of_nonpos hneg.le).symm
  · rw [List.nil_append, tokensOf_eq hdigits, endWord_of_ne_nil Nat.toDigits_ne_nil,
      List.nil_append, numberOf, decimal_toDigits, Option.map_some]
    exact congrArg some (Int.natAbs_of_nonneg (not_lt.mp hneg))

theorem sizeofType_cType (t : ElemType) : sizeofType (cType (some t)) = some t.size := by
  cases t with
  | u8 => rfl
  | f32 => decide +kernel

theorem sizeofDecl_memberDecl {f : LayoutField} (h : Sized f) :
    sizeofDecl (memberDecl str (member f)) = some (occupied f) := by
  obtain ⟨t, htype, hsize⟩ := h.elemType
  simp only [sizeofDecl, memberDecl, member, htype, sizeofType_cType, Option.bind_eq_bind,
    Option.bind_some, occupied, hsize]
  split_ifs with hmany
  · have hdecimal : decimal (intText f.count) = some f.count.natAbs := by
      rw [intText_of_nonneg (by omega), decimal_toDigits]
    have habs : (f.count.natAbs : Int) = f.count := by omega
    simp [hdecimal, habs]
  · simp

theorem sizeofDecls_map_member {layout : List LayoutField} (h : ∀ f ∈ layout, Sized f) :
    sizeofDecls ((layout.map member).map (memberDecl str)) = some (occupiedSize layout) := by
  have hsizes : ((layout.map member).map (memberDecl str)).mapM sizeofDecl =
      some (layout.map occupied) := by
    induction layout with
    | nil => rfl
    | cons f layout ih =>
        obtain ⟨hf, hlayout⟩ := List.forall_mem_cons.mp h
        rw [List.map_cons, List.map_cons, List.mapM_cons, sizeofDecl_memberDecl hf, ih hlayout]
        rfl
  rw [sizeofDecls, hsizes, Option.map_some, occupiedSize]

theorem asserted_iff {structs : List (List Char × List MemberDecl)} {name : List Char}
    {members : List MemberDecl} (h : ∀ ms, (name, ms) ∈ structs ↔ ms = members)
    (largest size : Int) :
    (∃ ms n, (name, ms) ∈ structs ∧ sizeofDecls ms = some n ∧ n ≤ largest ∧
      numberOf (tokensOf (intText size)) = some n) ↔
      sizeofDecls members = some size ∧ size ≤ largest := by
  simp only [h, numberOf_intText, Option.some.injEq]
  constructor
  · rintro ⟨ms, n, rfl, hsize, hle, rfl⟩
    exact ⟨hsize, hle⟩
  · exact fun ⟨hsize, hle⟩ => ⟨members, size, rfl, hsize, hle, rfl⟩

theorem assertsHold_cReading (str : PyVal → List Char) (largest : Int) (h : CHeader) :
    AssertsHold largest (cReading str h) ↔
      (sizeofDecls (h.cmdPacket.map (memberDecl str)) = some h.assertedCmdSize ∧
        h.assertedCmdSize ≤ largest) ∧
      sizeofDecls (h.telemetryPacket.map (memberDecl str)) = some h.assertedTeleSize ∧
        h.assertedTeleSize ≤ largest := by
  have hnames : "CmdPacket".toList ≠ "TelemetryPacket".toList := by decide +kernel
  rw [AssertsHold, cReading, assertedSizes, List.forall_mem_cons, List.forall_mem_singleton]
  refine and_congr (asserted_iff (fun ms => ?_) _ _) (asserted_iff (fun ms => ?_) _ _)
  · simp only [structsOf, List.mem_cons, Prod.mk.injEq, true_and, hnames, false_and,
      List.not_mem_nil, or_false]
  · simp only [structsOf, List.mem_cons, Prod.mk.injEq, true_and, hnames.symm, false_and,
      List.not_mem_nil, or_false, false_or]

theorem asserts_of_renderC (h : renderC py schema = .ok c) : ∃ ctx, makeCtx py schema = .ok ctx ∧
    c.cmdPacket = (ctxFields ctx .cmd).map member ∧
    c.telemetryPacket = (ctxFields ctx .tele).map member ∧
    c.assertedCmdSize = totalSize (ctxFields ctx .cmd) ∧
    c.assertedTeleSize = totalSize (ctxFields ctx .tele) := by
  simp only [renderC, bind_eq_ok, lift_eq_ok, pure_eq_ok] at h
  obtain ⟨ctx, hctx, -, -, -, -, -, -, -, -, -, -, -, -, -, -, rfl⟩ := h
  have hsize := (fromSchema_of_makeCtx hctx).size_eq
  exact ⟨ctx, hctx, rfl, rfl, hsize .cmd, hsize .tele⟩

/-- Every count of a frame, as `int` takes it, is at least one, and the frame is no larger
than objects can be. -/
def SizedFrame (py : Runtime) (largest : Int) (frame : PyVal) : Prop :=
  (∀ value fields, frame.getItem (.str "fields") = .ok value → value.items = .ok fields →
    ∀ field ∈ fields, ∀ v n,
      field.get (.str "count") (.int 1) = .ok v → py.int v = .ok n → 1 ≤ n) ∧
  ∀ layout, layoutOfFrame py frame = .ok layout → totalSize layout ≤ largest

theorem sizedFrame_iff {largest : Int} {frame : PyVal} {layout : List LayoutField}
    (h : layoutOfFrame py.toRuntime frame = .ok layout) :
    SizedFrame py.toRuntime largest frame ↔
      (∀ f ∈ layout, 1 ≤ f.count) ∧ totalSize layout ≤ largest := by
  have hlayout := h
  simp only [layoutOfFrame, bind_eq_ok] at hlayout
  obtain ⟨value, hvalue, fields, hfields, hlayout⟩ := hlayout
  rw [one_le_count_iff (laidOut_of_computeLayoutFrom hlayout).1]
  constructor
  · exact fun hsized => ⟨hsized.1 value fields hvalue hfields, hsized.2 layout h⟩
  · rintro ⟨hcounts, hsize⟩
    refine ⟨?_, ?_⟩
    · intro value' fields' hvalue' hfields'
      obtain rfl := Except.ok.inj (hvalue.symm.trans hvalue')
      obtain rfl := Except.ok.inj (hfields.symm.trans hfields')
      exact hcounts
    · intro layout' hlayout'
      obtain rfl := Except.ok.inj (h.symm.trans hlayout')
      exact hsize

/-- The static assertions in the text of the C header hold just where no count of the schema,
as `int` takes it, is below one and neither frame is too large. -/
theorem asserts_hold_iff (hpy : KeepsWords py str) (hplain : PlainSchema py str schema)
    (hc : renderC py schema = .ok c) (largest : Int) :
    AssertsHold largest (readHeader (cText str c)) ↔
      ∀ k frame, frameOf schema (packetName k) = .ok frame →
        SizedFrame py.toRuntime largest frame := by
  obtain ⟨ctx, hctx, hcmd, htele, hcmdSize, hteleSize⟩ := asserts_of_renderC hc
  have hsized := sized_of_makeCtx hctx
  rw [readHeader_cText (plainC_of_render hpy hc hplain), assertsHold_cReading, hcmd, htele,
    hcmdSize, hteleSize, sizeofDecls_map_member (hsized .cmd),
    sizeofDecls_map_member (hsized .tele),
    Option.some.injEq, Option.some.injEq, eq_comm, totalSize_eq_iff (hsized .cmd),
    eq_comm, totalSize_eq_iff (hsized .tele)]
  have hframe : ∀ k, ((∀ f ∈ ctxFields ctx k, 1 ≤ f.count) ∧
      totalSize (ctxFields ctx k) ≤ largest) ↔
      ∀ frame, frameOf schema (packetName k) = .ok frame →
        SizedFrame py.toRuntime largest frame := by
    intro k
    obtain ⟨frame, hframe, hlayout, -⟩ := (fromSchema_of_makeCtx hctx).packet_eq k
    rw [← sizedFrame_iff hlayout]
    constructor
    · intro h frame' hframe'
      obtain rfl := Except.ok.inj (hframe.symm.trans hframe')
      exact h
    · exact fun h => h frame hframe
  rw [hframe .cmd, hframe .tele]
  constructor
  · rintro ⟨hcmd, htele⟩ k
    cases k with
    | cmd => exact hcmd
    | tele => exact htele
  · exact fun h => ⟨h .cmd, h .tele⟩

theorem exists_entry_of_protocolYaml {k : PacketType} {frame value field : PyVal}
    {fields : List PyVal} (hframe : frameOf protocolYaml (packetName k) = .ok frame)
    (hvalue : frame.getItem (.str "fields") = .ok value) (hitems : value.items = .ok fields)
    (hfield : field ∈ fields) : ∃ e ∈ cmdFields ++ teleFields, e.toPy = field := by
  cases k with
  | cmd =>
      obtain rfl := Except.ok.inj hframe
      obtain rfl := Except.ok.inj hvalue
      obtain rfl := Except.ok.inj hitems
      obtain ⟨e, he, rfl⟩ := List.mem_map.mp hfield
      exact ⟨e, List.mem_append_left _ he, rfl⟩
  | tele =>
      obtain rfl := Except.ok.inj hframe
      obtain rfl := Except.ok.inj hvalue
      obtain rfl := Except.ok.inj hitems
      obtain ⟨e, he, rfl⟩ := List.mem_map.mp hfield
      exact ⟨e, List.mem_append_right _ he, rfl⟩

theorem protocol_asserts_hold : ∃ c, renderC plainRuntime protocolYaml = .ok c ∧
    AssertsHold 32767 (readHeader (cText plainText c)) := by
  obtain ⟨c, hc⟩ : ∃ c, renderC plainRuntime protocolYaml = .ok c := ⟨_, rfl⟩
  refine ⟨c, hc, (asserts_hold_iff keepsWords_plainRuntime plain_protocolYaml hc _).mpr ?_⟩
  have hcounts : ∀ e ∈ cmdFields ++ teleFields, 1 ≤ e.count.getD 1 := by decide
  intro k frame hframe
  constructor
  · intro value fields hvalue hitems field hfield v n hget hint
    obtain ⟨e, he, rfl⟩ := exists_entry_of_protocolYaml hframe hvalue hitems hfield
    obtain ⟨v', hget', hkey⟩ := get_of_fieldCount (fieldCount_toPy e)
    obtain rfl := Except.ok.inj (hget.symm.trans hget')
    obtain rfl := Except.ok.inj (hint.symm.trans (int_of_keyInt plainRuntime.toRuntime hkey))
    exact_mod_cast hcounts e he
  · intro layout hlayout
    cases k with
    | cmd =>
        obtain rfl := Except.ok.inj hframe
        obtain rfl := Except.ok.inj hlayout
        decide +kernel
    | tele =>
        obtain rfl := Except.ok.inj hframe
        obtain rfl := Except.ok.inj hlayout
        decide +kernel

end Asserts

section Files

def textAt (files : Path → Option FileData) (path : Path) (text : List Char) : Prop :=
  ∃ raw, files path = some raw ∧ readText raw = .ok text

/-- A directory without headers, or with two that declare the same. -/
def HeadersAgree (py : TextRuntime) (files : Path → Option FileData) (out : Path) : Prop :=
  (files (Artifact.protocolHpp.path out) = none ∧ files (Artifact.ouProtocolH.path out) = none) ∨
  ∃ cpp c, textAt files (Artifact.protocolHpp.path out) cpp ∧
    textAt files (Artifact.ouProtocolH.path out) c ∧
    SameDeclarations py (readHeader cpp) (readHeader c)

/-- Where two files are both missing or both read as texts, the second can be read. -/
theorem readable_of_pair {files : Path → Option FileData} {p q : Path}
    {related : List Char → List Char → Prop}
    (h : (files p = none ∧ files q = none) ∨
      ∃ first second, textAt files p first ∧ textAt files q second ∧ related first second) :
    Readable textStore files q := by
  intro raw hraw
  rcases h with ⟨-, hnone⟩ | ⟨-, second, -, ⟨raw', hraw', htext⟩, -⟩
  · rw [hnone] at hraw
    cases hraw
  · obtain rfl := Option.some.inj (hraw.symm.trans hraw')
    exact ⟨second, htext⟩

theorem textAt_of_holds {files : Path → Option FileData} {path : Path} {text : List Char}
    (h : Holds textStore files path text) (hcr : '\r' ∉ text) : textAt files path text := by
  obtain ⟨raw, hraw, hread⟩ := h
  have hnorm : textStore.norm text = text := newlines_of_cr_not_mem hcr
  rw [hnorm] at hread
  exact ⟨raw, hraw, hread⟩

def headerTemplates : Templates :=
  { markTemplates with
    cpp := cppText plainText
    c := cText plainText }

end Files

end RovSdk.PublishedHeaders
