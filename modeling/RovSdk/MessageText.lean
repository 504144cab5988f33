import Mathlib.Data.List.TakeWhile
import RovSdk.PublishedHeaders

namespace RovSdk.MessageText

open RovSdk.Results
open RovSdk.Packets (PacketType)
open RovSdk.PythonValues
open RovSdk.CodeGenerator
open RovSdk.SourceTokens
open RovSdk.SourceNames
open RovSdk.HeaderText
open RovSdk.GoldenHeader (autoHeader)
open RovSdk.HeaderReader
open RovSdk.SchemaLayout
open RovSdk.SchemaValidator
open RovSdk.FrameLayouts
open RovSdk.GeneratorContext
open RovSdk.ArtifactAgreement (Declares IntegerCount forall₂_declares_iff integerCount_toPy)
open RovSdk.PublishedHeaders
open RovSdk.ProtocolSchema (protocolYaml)

section Template

/-- `MSG_TYPE`; a type that is not in the table prints as nothing. -/
def msgType : Option ElemType → List Char
  | some .u8 => "uint8".toList
  | some .f32 => "float32".toList
  | none => []

variable (str : PyVal → List Char)

def modeLine (mode : PyVal × PyVal) : List Char :=
  "uint8 MODE_".toList ++ str mode.1 ++ "=".toList ++ str mode.2

def sizeText : Option PyVal → List Char
  | some count => "[".toList ++ str count ++ "]".toList
  | none => []

def fieldLine (f : MsgField) : List Char :=
  msgType f.type ++ sizeText str f.count ++ " ".toList ++ str f.name

def msgLines (file : MsgFile) : List (List Char) :=
  ["# ".toList ++ autoHeader.toList,
    [],
    "# Mode 枚举".toList] ++
  file.modes.map (modeLine str) ++
  [[],
    "# Payload fields".toList] ++
  file.fields.map (fieldLine str)

/-- The text of a message file, which ends with the line end of its last field. -/
def msgText (file : MsgFile) : List Char := (msgLines str file).flatMap (· ++ ['\n'])

end Template

section Reader

inductive MsgDecl where
  | constant (type name value : List Char)
  | field (type : List Char) (count : Option (List Char)) (name : List Char)
  deriving DecidableEq

/-- A type, with the size in brackets behind it where it is an array. -/
def readType (text : List Char) : Option (List Char × Option (List Char)) :=
  match text.splitOn '[' with
  | [type] => some (type, none)
  | [type, size] => if size.getLast? = some ']' then some (type, some size.dropLast) else none
  | _ => none

def readWords : List (List Char) → Option MsgDecl
  | [type, rest] =>
      match rest.splitOn '=' with
      | [name] => (readType type).map fun t => .field t.1 t.2 name
      | [name, value] => some (.constant type name value)
      | _ => none
  | _ => none

/-- A line of a message, up to its comment. -/
def readMsgLine (line : List Char) : Option MsgDecl :=
  readWords (((line.takeWhile (· != '#')).splitOn ' ').filter (· != []))

def readMsg (text : List Char) : List MsgDecl := (text.splitOn '\n').filterMap readMsgLine

end Reader

section Lines

/-- A text with no sign of the reader in it. -/
def IsClean (text : List Char) : Prop :=
  text ≠ [] ∧ ∀ c ∈ ['#', ' ', '[', ']', '=', '\n'], c ∉ text

instance (text : List Char) : Decidable (IsClean text) :=
  have : Decidable (∀ c ∈ ['#', ' ', '[', ']', '=', '\n'], c ∉ text) := List.decidableBAll _ _
  inferInstanceAs (Decidable (_ ∧ _))

theorem isClean_of_isWord {text : List Char} (h : IsWord text) : IsClean text := by
  refine ⟨h.1, fun c hc => not_mem_of_isWord h ?_⟩
  simp only [List.mem_cons, List.not_mem_nil, or_false] at hc
  rcases hc with rfl | rfl | rfl | rfl | rfl | rfl <;> rfl

variable {str : PyVal → List Char}

theorem readMsgLine_pair {first rest : List Char} (hfirst : first ≠ []) (hrest : rest ≠ [])
    (hhash : '#' ∉ first ++ ' ' :: rest) (hblank : ' ' ∉ first) (hblanks : ' ' ∉ rest) :
    readMsgLine (first ++ ' ' :: rest) = readWords [first, rest] := by
  have hcode : (first ++ ' ' :: rest).takeWhile (· != '#') = first ++ ' ' :: rest := by
    rw [List.takeWhile_eq_self_iff]
    exact fun c hc => bne_iff_ne.mpr (ne_of_mem_of_not_mem hc hhash)
  rw [readMsgLine, hcode, List.splitOn_append_cons_self_of_not_mem hblank,
    List.splitOn_eq_singleton hblanks, List.filter_eq_self.mpr]
  simp only [List.forall_mem_cons, List.not_mem_nil, false_implies, implies_true, and_true,
    bne_iff_ne]
  exact ⟨hfirst, hrest⟩

def modeDecl (str : PyVal → List Char) (mode : PyVal × PyVal) : MsgDecl :=
  .constant "uint8".toList ("MODE_".toList ++ str mode.1) (str mode.2)

def fieldDecl (str : PyVal → List Char) (f : MsgField) : MsgDecl :=
  .field (msgType f.type) (f.count.map str) (str f.name)

theorem readMsgLine_modeLine {mode : PyVal × PyVal} (hname : IsClean (str mode.1))
    (hvalue : IsClean (str mode.2)) :
    readMsgLine (modeLine str mode) = some (modeDecl str mode) := by
  have hline : modeLine str mode =
      "uint8".toList ++ ' ' :: ("MODE_".toList ++ str mode.1 ++ '=' :: str mode.2) := by
    have htype : "uint8 MODE_".toList = "uint8".toList ++ ' ' :: "MODE_".toList := by
      decide +kernel
    have hequals : "=".toList = ['='] := rfl
    unfold modeLine
    generalize "uint8 MODE_".toList = start at htype ⊢
    subst htype
    generalize "uint8".toList = type, "MODE_".toList = mark
    rw [hequals]
    simp only [List.append_assoc, List.cons_append, List.nil_append]
  have hnot : ∀ c ∈ ['#', ' '], c ∉ "MODE_".toList ++ str mode.1 ++ '=' :: str mode.2 := by
    intro c hc
    have hc' : c ∈ ['#', ' ', '[', ']', '=', '\n'] :=
      List.mem_append_left ['[', ']', '=', '\n'] hc
    have hword : IsWord "MODE_".toList := by decide
    have hmark := isClean_of_isWord hword
    simp only [List.mem_append, List.mem_cons, not_or]
    refine ⟨⟨hmark.2 c hc', hname.2 c hc'⟩, ?_, hvalue.2 c hc'⟩
    rintro rfl
    exact absurd hc (by decide)
  have hequals : '=' ∉ "MODE_".toList ++ str mode.1 := by
    rw [List.mem_append, not_or]
    exact ⟨by decide, hname.2 '=' (by decide)⟩
  rw [hline, readMsgLine_pair (by decide) (by simp) ?_ (by decide) (hnot ' ' (by decide)),
    readWords, List.splitOn_append_cons_self_of_not_mem hequals,
    List.splitOn_eq_singleton (hvalue.2 '=' (by decide))]
  · rfl
  · rw [List.mem_append, List.mem_cons, not_or, not_or]
    exact ⟨by decide, by decide, hnot '#' (by decide)⟩

theorem isWord_msgType {type : Option ElemType} (h : type ≠ none) : IsWord (msgType type) := by
  cases type with
  | none => exact absurd rfl h
  | some t => cases t <;> decide +kernel

structure PlainMsg (str : PyVal → List Char) (file : MsgFile) : Prop where
  modes : ∀ mode ∈ file.modes, IsClean (str mode.1) ∧ IsClean (str mode.2)
  types : ∀ f ∈ file.fields, f.type ≠ none
  names : ∀ f ∈ file.fields, IsClean (str f.name)
  counts : ∀ f ∈ file.fields, ∀ count, f.count = some count → IsClean (str count)

theorem readType_msgType {f : MsgField} (htype : f.type ≠ none)
    (hcount : ∀ count, f.count = some count → IsClean (str count)) :
    readType (msgType f.type ++ sizeText str f.count) =
      some (msgType f.type, f.count.map str) := by
  have hword := isClean_of_isWord (isWord_msgType htype)
  have hopen : '[' ∉ msgType f.type := hword.2 '[' (by decide)
  rcases hsize : f.count with _ | count
  · rw [sizeText, List.append_nil, readType, List.splitOn_eq_singleton hopen]
    rfl
  · have hclean := hcount count hsize
    have hrest : '[' ∉ str count ++ [']'] := by
      rw [List.mem_append, not_or]
      exact ⟨hclean.2 '[' (by decide), by decide⟩
    have htext : sizeText str (some count) = '[' :: (str count ++ [']']) := rfl
    rw [htext, readType, List.splitOn_append_cons_self_of_not_mem hopen,
      List.splitOn_eq_singleton hrest]
    simp only [List.getLast?_concat, List.dropLast_concat, if_true, Option.map_some]

theorem readMsgLine_fieldLine {f : MsgField} (htype : f.type ≠ none)
    (hname : IsClean (str f.name))
    (hcount : ∀ count, f.count = some count → IsClean (str count)) :
    readMsgLine (fieldLine str f) = some (fieldDecl str f) := by
  have hword := isClean_of_isWord (isWord_msgType htype)
  have hnot : ∀ c ∈ ['#', ' '], c ∉ msgType f.type ++ sizeText str f.count := by
    intro c hc
    have hc' : c ∈ ['#', ' ', '[', ']', '=', '\n'] :=
      List.mem_append_left ['[', ']', '=', '\n'] hc
    rw [List.mem_append, not_or]
    refine ⟨hword.2 c hc', ?_⟩
    rcases hsize : f.count with _ | count
    · exact List.not_mem_nil
    · rw [sizeText, List.mem_append, List.mem_append, not_or, not_or]
      refine ⟨⟨fun hopen => ?_, (hcount count hsize).2 c hc'⟩, fun hclose => ?_⟩
      · obtain rfl := List.mem_singleton.mp hopen
        exact absurd hc (by decide)
      · obtain rfl := List.mem_singleton.mp hclose
        exact absurd hc (by decide)
  have hline : fieldLine str f = (msgType f.type ++ sizeText str f.count) ++ ' ' :: str f.name := by
    rw [fieldLine, List.append_assoc _ " ".toList]
    rfl
  have hhash : '#' ∉ msgType f.type ++ sizeText str f.count ++ ' ' :: str f.name := by
    rw [List.mem_append, List.mem_cons, not_or, not_or]
    exact ⟨hnot '#' (by decide), by decide, hname.2 '#' (by decide)⟩
  have hfirst := List.append_ne_nil_of_left_ne_nil hword.1 (sizeText str f.count)
  rw [hline, readMsgLine_pair hfirst hname.1 hhash (hnot ' ' (by decide))
    (hname.2 ' ' (by decide)), readWords, List.splitOn_eq_singleton (hname.2 '=' (by decide)),
    readType_msgType htype hcount]
  rfl

theorem newline_not_mem_modeLine {mode : PyVal × PyVal} (hname : IsClean (str mode.1))
    (hvalue : IsClean (str mode.2)) : '\n' ∉ modeLine str mode := by
  unfold modeLine
  simp only [List.mem_append, not_or]
  exact ⟨⟨⟨by decide, hname.2 '\n' (by decide)⟩, by decide⟩, hvalue.2 '\n' (by decide)⟩

theorem newline_not_mem_fieldLine {f : MsgField} (htype : f.type ≠ none)
    (hname : IsClean (str f.name))
    (hcount : ∀ count, f.count = some count → IsClean (str count)) : '\n' ∉ fieldLine str f := by
  have hword := isClean_of_isWord (isWord_msgType htype)
  have hsize : '\n' ∉ sizeText str f.count := by
    rcases hsize : f.count with _ | count
    · exact List.not_mem_nil
    · rw [sizeText, List.mem_append, List.mem_append, not_or, not_or]
      exact ⟨⟨by decide, (hcount count hsize).2 '\n' (by decide)⟩, by decide⟩
  rw [fieldLine, List.mem_append, List.mem_append, List.mem_append, not_or, not_or, not_or]
  exact ⟨⟨⟨hword.2 '\n' (by decide), hsize⟩, by decide⟩, hname.2 '\n' (by decide)⟩

theorem readMsg_lines {lines : List (List Char)} (h : ∀ line ∈ lines, '\n' ∉ line) :
    readMsg (lines.flatMap (· ++ ['\n'])) = lines.filterMap readMsgLine := by
  rw [readMsg, splitOn_terminated h, List.filterMap_append]
  exact List.append_nil _

theorem filterMap_map_eq {α : Type} {items : List α} {line : α → List Char} {decl : α → MsgDecl}
    (h : ∀ a ∈ items, readMsgLine (line a) = some (decl a)) :
    (items.map line).filterMap readMsgLine = items.map decl := by
  rw [List.filterMap_map]
  exact List.filterMap_eq_map_iff_forall_eq_some.mpr h

theorem readMsg_msgText {file : MsgFile} (h : PlainMsg str file) :
    readMsg (msgText str file) =
      file.modes.map (modeDecl str) ++ file.fields.map (fieldDecl str) := by
  have hfields : ∀ f ∈ file.fields, '\n' ∉ fieldLine str f := fun f hf =>
    newline_not_mem_fieldLine (h.types f hf) (h.names f hf) (h.counts f hf)
  have hmodes : ∀ mode ∈ file.modes, '\n' ∉ modeLine str mode := fun mode hmode =>
    newline_not_mem_modeLine (h.modes mode hmode).1 (h.modes mode hmode).2
  have hlines : ∀ line ∈ msgLines str file, '\n' ∉ line := by
    rw [msgLines]
    simp only [List.forall_mem_append, List.forall_mem_map]
    refine ⟨⟨⟨?_, hmodes⟩, ?_⟩, hfields⟩
    · decide +kernel
    · decide +kernel
  have hfirst : [("# ".toList ++ autoHeader.toList), [], "# Mode 枚举".toList].filterMap
      readMsgLine = [] := by decide +kernel
  have hsecond : [[], "# Payload fields".toList].filterMap readMsgLine = [] := by decide +kernel
  rw [msgText, readMsg_lines hlines, msgLines, List.filterMap_append, List.filterMap_append,
    List.filterMap_append, hfirst, hsecond, List.nil_append, List.append_nil,
    filterMap_map_eq fun mode hmode => readMsgLine_modeLine (h.modes mode hmode).1
      (h.modes mode hmode).2,
    filterMap_map_eq fun f hf => readMsgLine_fieldLine (h.types f hf) (h.names f hf)
      (h.counts f hf)]

end Lines

section Agreement

/-- A field of a message for a member of a struct: of the same type, size and name. -/
def SameField (d : MsgDecl) (m : MemberDecl) : Prop :=
  ∃ type, (m.type, type) ∈ [("uint8_t".toList, "uint8".toList),
    ("float".toList, "float32".toList)] ∧ d = .field type m.count m.name

variable {py : TextRuntime} {str : PyVal → List Char} {schema : PyVal} {c : CHeader}
  {row : MsgField} {f : LayoutField}

/-- A count that a message states is one of the struct, and printed alike. -/
theorem count_of_declares (h : Declares row (member f)) {count : PyVal}
    (hcount : row.count = some count) : ∃ n, count = .int n ∧ (member f).count = some n := by
  have hkey : count.keyInt = (member f).count := by
    rw [← h.count, hcount, Option.bind_some]
  have hsome : (member f).count ≠ none := by
    rw [Ne, ← h.array, hcount]
    exact Option.some_ne_none count
  obtain ⟨n, hn⟩ := Option.ne_none_iff_exists'.mp hsome
  rw [hn] at hkey
  have hmany : n > 1 := by
    rw [member] at hn
    split_ifs at hn
    obtain rfl := Option.some.inj hn
    assumption
  refine ⟨n, ?_, hn⟩
  cases count with
  | int m => exact congrArg PyVal.int (Option.some.inj hkey)
  | bool b =>
      have hle : n ≤ 1 := by
        cases b with
        | false => exact (Option.some.inj hkey).symm.le.trans (by decide)
        | true => exact (Option.some.inj hkey).symm.le
      exact absurd hmany hle.not_gt
  | float _ => cases hkey
  | str _ => cases hkey
  | list _ => cases hkey
  | dict _ => cases hkey
  | none => cases hkey

theorem sameField_of_declares (hint : ∀ n, str (.int n) = intText n)
    (h : Declares row (member f)) (hsized : Sized f) :
    SameField (fieldDecl str row) (memberDecl str (member f)) := by
  have hcounts : row.count.map str = (member f).count.map intText := by
    rcases hcount : row.count with _ | count
    · rw [h.array.mp hcount]
      rfl
    · obtain ⟨n, rfl, hn⟩ := count_of_declares h hcount
      rw [hn, Option.map_some, Option.map_some, hint]
  obtain ⟨t, htype, -⟩ := hsized.elemType
  have htypes : row.type = some t := h.type.trans htype
  refine ⟨msgType (some t), ?_, ?_⟩
  · have hmember : (memberDecl str (member f)).type = cType (some t) := congrArg cType htype
    rw [hmember]
    cases t with
    | u8 => exact List.mem_cons_self
    | f32 => exact List.mem_cons_of_mem _ List.mem_cons_self
  · rw [fieldDecl, htypes, hcounts, h.name]
    rfl

def IntegerCounts (py : TextRuntime) (schema : PyVal) (frameName : String) : Prop :=
  ∀ frame value fields, frameOf schema frameName = .ok frame →
    frame.getItem (.str "fields") = .ok value → value.items = .ok fields →
    ∀ field ∈ fields, IntegerCount py field

theorem declares_of_renderMsg
    (hfloat : ∀ bits n, py.intOfFloat bits = .ok n → py.floatAboveOne bits = false → n ≤ 1)
    {k : PacketType} {file : MsgFile} (hcounts : IntegerCounts py schema (packetName k))
    (h : renderMsg py schema (packetName k) = .ok file) {ctx : Ctx}
    (hctx : makeCtx py schema = .ok ctx) :
    List.Forall₂ (fun row f => Declares row (member f)) file.fields (ctxFields ctx k) := by
  simp only [renderMsg, bind_eq_ok, lift_eq_ok, pure_eq_ok] at h
  obtain ⟨-, -, frame, hframe, value, hvalue, fields, hfields, -, -, rows, hrows, rfl⟩ := h
  obtain ⟨frame', hframe', hlayout, -⟩ := (fromSchema_of_makeCtx hctx).packet_eq k
  obtain rfl := Except.ok.inj (hframe.symm.trans hframe')
  rw [layoutOfFrame, hvalue, ok_bind, hfields, ok_bind] at hlayout
  have hlaid := (laidOut_of_computeLayoutFrom hlayout).1
  exact List.forall₂_map_right_iff.mp ((forall₂_declares_iff hfloat hlaid hrows).mpr
    (hcounts frame value fields hframe hvalue hfields))

theorem plainMsg_of_declares {file : MsgFile} {layout : List LayoutField}
    (hpy : KeepsWords py str) (hint : ∀ n, str (.int n) = intText n)
    (hmodes : ∀ mode ∈ file.modes, IsClean (str mode.1) ∧ IsClean (str mode.2))
    (h : List.Forall₂ (fun row f => Declares row (member f)) file.fields layout)
    (hsized : ∀ f ∈ layout, Sized f) (hplain : ∀ f ∈ layout, PlainField str f) :
    PlainMsg str file := by
  refine ⟨hmodes, ?_, ?_, ?_⟩
  · intro row hrow
    obtain ⟨f, hf, hdeclares⟩ := exists_of_mem_left h hrow
    obtain ⟨t, htype, -⟩ := (hsized f hf).elemType
    rw [hdeclares.type.trans htype]
    exact Option.some_ne_none t
  · intro row hrow
    obtain ⟨f, hf, hdeclares⟩ := exists_of_mem_left h hrow
    rw [hdeclares.name]
    exact isClean_of_isWord (isIdentifier_of_freeName hpy (hplain f hf).name).isWord
  · intro row hrow count hcount
    obtain ⟨f, hf, hdeclares⟩ := exists_of_mem_left h hrow
    obtain ⟨n, rfl, hn⟩ := count_of_declares hdeclares hcount
    rw [hint]
    refine isClean_of_isWord (isWord_intText ?_)
    exact (plainMember hpy (hplain f hf) (hsized f hf)).count n hn

/-- The text of a message declares the fields of the struct that the text of the C header
declares under its name: the same names in order, with their types and array sizes. -/
theorem message_text_agrees {k : PacketType} {file : MsgFile} (hpy : KeepsWords py str)
    (hint : ∀ n, str (.int n) = intText n)
    (hfloat : ∀ bits n, py.intOfFloat bits = .ok n → py.floatAboveOne bits = false → n ≤ 1)
    (hplain : PlainSchema py str schema)
    (hcounts : IntegerCounts py schema (packetName k)) (hc : renderC py schema = .ok c)
    (hmsg : renderMsg py schema (packetName k) = .ok file)
    (hmodes : ∀ mode ∈ file.modes, IsClean (str mode.1) ∧ IsClean (str mode.2)) :
    ∃ fields members, readMsg (msgText str file) = file.modes.map (modeDecl str) ++ fields ∧
      ((packetName k).toList, members) ∈ (readHeader (cText str c)).structs ∧
      List.Forall₂ SameField fields members := by
  obtain ⟨ctx, hctx, hcmd, htele, -⟩ := asserts_of_renderC hc
  have hsized := sized_of_makeCtx hctx k
  have hfields := (plain_of_makeCtx hctx hplain k).fields
  have hdeclares := declares_of_renderMsg hfloat hcounts hmsg hctx
  refine ⟨file.fields.map (fieldDecl str),
    ((ctxFields ctx k).map member).map (memberDecl str), ?_, ?_, ?_⟩
  · exact readMsg_msgText (plainMsg_of_declares hpy hint hmodes hdeclares hsized hfields)
  · rw [readHeader_cText (plainC_of_render hpy hc hplain), cReading, hcmd, htele]
    cases k with
    | cmd => exact List.mem_cons_self
    | tele => exact List.mem_cons_of_mem _ List.mem_cons_self
  · rw [List.forall₂_map_left_iff, List.map_map, List.forall₂_map_right_iff]
    have hboth := (List.forall₂_and_left _ _).mpr ⟨hsized, hdeclares.flip⟩
    exact hboth.flip.imp fun row f h => sameField_of_declares hint h.2 h.1

theorem telemetry_text_agrees : ∃ c file fields members,
    renderC plainRuntime protocolYaml = .ok c ∧
      renderMsg plainRuntime protocolYaml "TelemetryPacket" = .ok file ∧
      readMsg (msgText plainText file) = file.modes.map (modeDecl plainText) ++ fields ∧
      ("TelemetryPacket".toList, members) ∈ (readHeader (cText plainText c)).structs ∧
      List.Forall₂ SameField fields members := by
  obtain ⟨c, hc⟩ : ∃ c, renderC plainRuntime protocolYaml = .ok c := ⟨_, rfl⟩
  obtain ⟨file, hfile⟩ : ∃ file, renderMsg plainRuntime protocolYaml (packetName .tele) =
    .ok file := ⟨_, rfl⟩
  have hfloat : ∀ bits n, plainRuntime.intOfFloat bits = .ok n →
      plainRuntime.floatAboveOne bits = false → n ≤ 1 := fun _ _ h => by cases h
  have hcounts : IntegerCounts plainRuntime protocolYaml (packetName .tele) := by
    intro frame value fields hframe hvalue hitems field hfield
    obtain ⟨e, -, rfl⟩ := exists_entry_of_protocolYaml hframe hvalue hitems hfield
    exact integerCount_toPy plainRuntime e
  have hmodes : ∀ mode ∈ file.modes,
      IsClean (plainText mode.1) ∧ IsClean (plainText mode.2) := by
    obtain rfl := Except.ok.inj hfile
    decide +kernel
  obtain ⟨fields, members, hread, hstruct, hsame⟩ := message_text_agrees keepsWords_plainRuntime
    (fun _ => rfl) hfloat plain_protocolYaml hcounts hc hfile hmodes
  exact ⟨c, file, fields, members, hc, hfile, hread, hstruct, hsame⟩

end Agreement

end RovSdk.MessageText
