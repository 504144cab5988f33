import RovSdk.HeaderConstants
import RovSdk.SourceTokens
import RovSdk.ValidatorAgreement

namespace RovSdk.GoldenHeader

open RovSdk.Results
open RovSdk.ProtocolBytes
open RovSdk.FrameFormat
open RovSdk.Packets
open RovSdk.PythonValues
open RovSdk.SchemaLayout
open RovSdk.SchemaValidator
open RovSdk.CodeGenerator
open RovSdk.FrameLayouts
open RovSdk.GeneratorContext
open RovSdk.GoldenFrames
open RovSdk.GoldenAgreement (byteVal bytesVal floatsVal)
open RovSdk.GoldenGenerator (GoldenCase caseFromInputs buildPayload)
open RovSdk.HeaderConstants
open RovSdk.SourceTokens (OneLine OneLine.append)
open RovSdk.FrameLink (checkDatagram)
open RovSdk.StreamParser (FrameParser)
open RovSdk.ValidatorAgreement (checkDatagram_eq_some_iff nextFrame_feed_eq_iff)

def autoHeader : String := "AUTO-GENERATED, DO NOT EDIT, source: schema/protocol.yaml"

def cmdInputs : PyVal :=
  .dict [(.str "mode", .int 1), (.str "armed", .int 1), (.str "reserved", bytesVal [0, 0]),
    (.str "surge", .float 0x3F000000), (.str "sway", .float 0xBE800000),
    (.str "heave", .float 0x3F800000), (.str "yaw", .float 0x3E000000),
    (.str "target_depth", .float 0x41200000), (.str "target_heading", .float 0x42B40000),
    (.str "target_north", .float 0), (.str "target_east", .float 0),
    (.str "reserved_tail", bytesVal (List.replicate 16 0))]

def teleInputs : PyVal :=
  .dict [(.str "roll", .float 0), (.str "pitch", .float 0xBE800000),
    (.str "heading", .float 0x42B40000), (.str "yaw_rate", .float 0x3E000000),
    (.str "depth", .float 0x41480000), (.str "altitude", .float 0x40A00000),
    (.str "north", .float 0xBE800000), (.str "east", .float 0x3E800000),
    (.str "vn", .float 0x3F000000), (.str "ve", .float 0xBF000000),
    (.str "vd", .float 0x3E000000), (.str "voltage", .float 0x41C80000),
    (.str "current", .float 0x40200000), (.str "percent", .float 0x42960000),
    (.str "temperature", .float 0x41C80000), (.str "water_temp", .float 0x40A00000),
    (.str "salinity", .float 0x420C0000), (.str "pressure_bar", .float 0x41200000),
    (.str "cable_tension", .float 0x437A0000),
    (.str "thr", floatsVal [0x3F000000, 0xBE800000, 0x3F800000, 0xBF800000, 0x3E000000,
      0xBF000000, 0x3F400000, 0xBF400000]),
    (.str "leak", .int 0), (.str "armed", .int 1), (.str "mode", .int 1),
    (.str "reserved", .int 0), (.str "reserved_tail", bytesVal (List.replicate 16 0))]

def inputsOf : PacketType → PyVal
  | .cmd => cmdInputs
  | .tele => teleInputs

def arrayNameOf : PacketType → String
  | .cmd => "OU_GOLDEN_CMD_FRAME"
  | .tele => "OU_GOLDEN_TELE_FRAME"

def notesOf : PacketType → String
  | .cmd => "固定控制指令 golden 帧，mode=AUTO, armed=1, 全部 reserved 清零"
  | .tele => "固定遥测 golden 帧，mode=AUTO, armed=1, 8 路 thr 互异，全部 reserved 清零"

def makeCases (py : Runtime) (schema : PyVal) : Except PyError (List GoldenCase) :=
  [PacketType.cmd, .tele].mapM fun k =>
    caseFromInputs py schema (packetName k) (inputsOf k) (arrayNameOf k) (notesOf k)

def fmtHexByte (b : UInt8) : List Char :=
  let digits := (Nat.toDigits 16 b.toNat).map Char.toUpper
  ['0', 'x'] ++ List.replicate (2 - digits.length) '0' ++ digits

/-- `", ".join(fmt_hex_byte(b) for b in data)`. -/
def initialisers (data : List UInt8) : List Char :=
  [',', ' '].intercalate (data.map fmtHexByte)

def caseLines (c : GoldenCase) : List (List Char) :=
  let arr := c.arrayName.toList
  ["/* ".toList ++ c.name.toList ++ ": ".toList ++ c.notes.toList ++ " */".toList,
    "#define ".toList ++ arr ++ "_LEN ".toList ++ Nat.toDigits 10 c.totalLength,
    "static const uint8_t ".toList ++ arr ++ "[".toList ++ arr ++ "_LEN] = \x7b".toList ++
      initialisers c.expectedFrame ++ "\x7d;".toList,
    []]

/-- The data of the CRC test vector, `"123456789"` in ASCII. -/
def crcData : List UInt8 := [0x31, 0x32, 0x33, 0x34, 0x35, 0x36, 0x37, 0x38, 0x39]

def headerLines (cases : List GoldenCase) : List (List Char) :=
  ["/* ".toList ++ autoHeader.toList ++ " */".toList,
    "#ifndef OU_GOLDEN_H".toList,
    "#define OU_GOLDEN_H".toList,
    [],
    "#include <stdint.h>".toList,
    [],
    "#define OU_GOLDEN_CRC_KNOWN_ANSWER 0x4B37".toList,
    [],
    "/* CRC standard test vector: crc16(\"123456789\") = 0x4B37 */".toList,
    "static const uint8_t OU_GOLDEN_CRC_DATA_123456789[] = \x7b".toList ++ initialisers crcData ++
      "\x7d;".toList,
    []] ++
    cases.flatMap caseLines ++ ["#endif /* OU_GOLDEN_H */".toList]

def renderH (cases : List GoldenCase) : List Char :=
  ['\n'].intercalate (headerLines cases) ++ ['\n']

section Reader

inductive Decl where
  | define (name value : List Char)
  | array (name size : List Char) (bytes : List UInt8)
  deriving DecidableEq

/-- The text before the first `c` and the text after it. -/
def cutAt (c : Char) (text : List Char) : List Char × List Char :=
  (text.takeWhile (· != c), (text.dropWhile (· != c)).tail)

def readBytes (text : List Char) : Option (List UInt8) :=
  if text = [] then some []
  else (text.splitOn ',').mapM fun item => byteConstant (item.dropWhile (· == ' '))

def readDefine (text : List Char) : Decl :=
  .define (cutAt ' ' text).1 (cutAt ' ' text).2

def readArray (text : List Char) : Option Decl :=
  let name := cutAt '[' text
  let size := cutAt ']' name.2
  let init := cutAt '}' (cutAt '{' size.2).2
  (readBytes init.1).map (Decl.array name.1 size.1)

def readLine (line : List Char) : Option Decl :=
  match line.dropPrefix? "#define ".toList with
  | some text => some (readDefine text)
  | none => (line.dropPrefix? "static const uint8_t ".toList).bind readArray

/-- The declarations of a header, comments and other directives left out. -/
def declarations (text : List Char) : List Decl := (text.splitOn '\n').filterMap readLine

def decimal (text : List Char) : Option Nat :=
  if text.all Char.isDigit ∧ text ≠ [] then some (Nat.ofDigitChars 10 text 0) else none

def macroValue (decls : List Decl) (name : List Char) : Option (List Char) :=
  decls.findSome? fun
    | .define other value => if other = name then some value else none
    | .array .. => none

/-- The size between the brackets of an array, and its initialisers. -/
def arrayDecl (decls : List Decl) (name : List Char) : Option (List Char × List UInt8) :=
  decls.findSome? fun
    | .array other size bytes => if other = name then some (size, bytes) else none
    | .define .. => none

/-- The number that the macro between the brackets of an array stands for. -/
def arrayLength (decls : List Decl) (name : List Char) : Option Nat := do
  let (size, _) ← arrayDecl decls name
  decimal (← macroValue decls size)

/-- The bytes of an array: its initialisers, and zeros up to the size that it states. -/
def arrayBytes (decls : List Decl) (name : List Char) : Option (List UInt8) := do
  let (_, bytes) ← arrayDecl decls name
  let n ← arrayLength decls name
  if bytes.length ≤ n then some (bytes ++ List.replicate (n - bytes.length) 0) else none

/-- An array that states the number of its initialisers holds just these. -/
theorem arrayBytes_of_arrayLength {decls : List Decl} {name size : List Char}
    {bytes : List UInt8} (hdecl : arrayDecl decls name = some (size, bytes))
    (hlength : arrayLength decls name = some bytes.length) :
    arrayBytes decls name = some bytes := by
  simp [arrayBytes, hdecl, hlength]

end Reader

theorem fmtHexByte_eq (b : UInt8) : fmtHexByte b =
    ['0', 'x', (b.toNat / 16).digitChar.toUpper, (b.toNat % 16).digitChar.toUpper] := by
  have hlt := b.toNat_lt
  by_cases hsmall : b.toNat < 16
  · rw [fmtHexByte, Nat.toDigits_of_lt_base hsmall, Nat.div_eq_of_lt hsmall,
      Nat.mod_eq_of_lt hsmall]
    rfl
  · rw [fmtHexByte, Nat.toDigits_of_base_le (by decide) (by omega),
      Nat.toDigits_of_lt_base (by omega)]
    rfl

theorem byteConstant_fmtHexByte (b : UInt8) : byteConstant (fmtHexByte b) = some b := by
  have hlt := b.toNat_lt
  rw [byteConstant, fmtHexByte_eq, literal_pair (hexDigit_digitChar (b.toNat / 16) (by omega))
    (hexDigit_digitChar (b.toNat % 16) (by omega)), Nat.div_add_mod]
  exact byteOf_eq_some.mpr rfl

/-- Characters of constants: hexadecimal digits and the `x`. -/
def ConstantChar (c : Char) : Prop := c = 'x' ∨ ∃ d < 16, c = d.digitChar.toUpper

theorem constantChar_of_mem {b : UInt8} {c : Char} (h : c ∈ fmtHexByte b) : ConstantChar c := by
  have hlt := b.toNat_lt
  simp only [fmtHexByte_eq, List.mem_cons, List.not_mem_nil, or_false] at h
  rcases h with rfl | rfl | rfl | rfl
  · exact .inr ⟨0, by decide, rfl⟩
  · exact .inl rfl
  · exact .inr ⟨_, by omega, rfl⟩
  · exact .inr ⟨_, by omega, rfl⟩

theorem constantChar_ne {c d : Char} (h : ConstantChar c)
    (hd : d ∈ [' ', ',', '}', '\n', '\r']) : c ≠ d := by
  have hdigits : ∀ n < 16, n.digitChar.toUpper ∉ [' ', ',', '}', '\n', '\r'] := by decide
  rintro rfl
  rcases h with rfl | ⟨n, hn, rfl⟩
  · revert hd
    decide
  · exact hdigits n hn hd

theorem intercalate_pair (c d : Char) (first : List Char) (rest : List (List Char)) :
    [c, d].intercalate (first :: rest) = [c].intercalate (first :: rest.map (d :: ·)) := by
  induction rest generalizing first with
  | nil => simp [List.intercalate_singleton]
  | cons second rest ih =>
      rw [List.intercalate_cons_cons, ih, List.map_cons, List.intercalate_cons_cons]
      cases rest with
      | nil => simp [List.intercalate_singleton]
      | cons third rest => simp [List.intercalate_cons_cons]

theorem mem_of_mem_intercalate {sep : List Char} {pieces : List (List Char)} {c : Char}
    (h : c ∈ sep.intercalate pieces) : c ∈ sep ∨ ∃ piece ∈ pieces, c ∈ piece := by
  induction pieces with
  | nil => simp at h
  | cons first rest ih =>
      cases rest with
      | nil =>
          rw [List.intercalate_singleton] at h
          exact .inr ⟨first, List.mem_cons_self, h⟩
      | cons second rest =>
          rw [List.intercalate_cons_cons, List.mem_append, List.mem_append] at h
          rcases h with (h | h) | h
          · exact .inr ⟨first, List.mem_cons_self, h⟩
          · exact .inl h
          · rcases ih h with h | ⟨piece, hpiece, h⟩
            · exact .inl h
            · exact .inr ⟨piece, List.mem_cons_of_mem _ hpiece, h⟩

theorem mem_initialisers {data : List UInt8} {c : Char} (h : c ∈ initialisers data) :
    c = ',' ∨ c = ' ' ∨ ConstantChar c := by
  rcases mem_of_mem_intercalate h with h | ⟨piece, hpiece, h⟩
  · rcases List.mem_pair.mp h with rfl | rfl
    · exact .inl rfl
    · exact .inr (.inl rfl)
  · obtain ⟨b, -, rfl⟩ := List.mem_map.mp hpiece
    exact .inr (.inr (constantChar_of_mem h))

theorem mapM_eq_some {α β γ : Type} {f : α → Option β} {g : γ → α} {h : γ → β}
    (hf : ∀ c, f (g c) = some (h c)) (xs : List γ) :
    (xs.map g).mapM f = some (xs.map h) := by
  induction xs with
  | nil => rfl
  | cons x xs ih => simp [hf, ih]

theorem readBytes_initialisers (data : List UInt8) :
    readBytes (initialisers data) = some data := by
  cases data with
  | nil => rfl
  | cons b data =>
      have hclean : ∀ b : UInt8, ',' ∉ fmtHexByte b := fun b hmem =>
        constantChar_ne (constantChar_of_mem hmem) (by decide) rfl
      have hdrop : ∀ b : UInt8, (fmtHexByte b).dropWhile (· == ' ') = fmtHexByte b := fun b => by
        rw [fmtHexByte_eq]
        rfl
      have hsplit : (initialisers (b :: data)).splitOn ',' =
          fmtHexByte b :: data.map fun b => ' ' :: fmtHexByte b := by
        rw [initialisers, List.map_cons, intercalate_pair, List.map_map,
          List.splitOn_intercalate]
        · rfl
        · simp only [List.mem_cons, List.mem_map]
          rintro item (rfl | ⟨b', -, rfl⟩)
          · exact hclean b
          · rw [Function.comp_apply, List.mem_cons, not_or]
            exact ⟨by decide, hclean b'⟩
        · exact List.cons_ne_nil _ _
      have hne : initialisers (b :: data) ≠ [] := by
        intro hnil
        rw [hnil] at hsplit
        have hfirst := (List.cons.inj hsplit).1
        rw [fmtHexByte_eq] at hfirst
        cases hfirst
      rw [readBytes, if_neg hne, hsplit, List.mapM_cons, hdrop, byteConstant_fmtHexByte,
        mapM_eq_some (h := id) fun b => ?_]
      · simp
      · rw [List.dropWhile_cons_of_pos (by rfl), hdrop, byteConstant_fmtHexByte]
        rfl

theorem cutAt_append {c : Char} {before : List Char} (h : c ∉ before) (after : List Char) :
    cutAt c (before ++ c :: after) = (before, after) := by
  have hbefore : ∀ a ∈ before, (a != c) = true := fun a ha =>
    bne_iff_ne.mpr fun heq => h (heq ▸ ha)
  rw [cutAt, List.takeWhile_append_of_pos hbefore, List.dropWhile_append_of_pos hbefore,
    List.takeWhile_cons_of_neg (by simp), List.dropWhile_cons_of_neg (by simp)]
  simp

theorem readLine_define {name value : List Char} (h : ' ' ∉ name) :
    readLine ("#define ".toList ++ (name ++ ' ' :: value)) = some (.define name value) := by
  rw [readLine, List.dropPrefix?_append_of_beq _ (beq_self_eq_true _)]
  simp only [readDefine, cutAt_append h]

theorem readLine_array {name size : List Char} {data : List UInt8} (hname : '[' ∉ name)
    (hsize : ']' ∉ size) :
    readLine ("static const uint8_t ".toList ++ (name ++ '[' :: (size ++ ']' :: (" = ".toList ++
      '{' :: (initialisers data ++ '}' :: [';']))))) = some (.array name size data) := by
  have hother : ∀ text : List Char,
      ("static const uint8_t ".toList ++ text).dropPrefix? "#define ".toList = none :=
    fun _ => rfl
  have hclose : '}' ∉ initialisers data := by
    intro hmem
    rcases mem_initialisers hmem with h | h | h
    · revert h
      decide
    · revert h
      decide
    · exact constantChar_ne h (by decide) rfl
  have hopen : '{' ∉ " = ".toList := by decide
  rw [readLine, hother, List.dropPrefix?_append_of_beq _ (beq_self_eq_true _)]
  simp only [Option.bind_some, readArray, cutAt_append hname, cutAt_append hsize,
    cutAt_append hopen, cutAt_append hclose, readBytes_initialisers, Option.map_some]

/-- A case whose text stays on its lines, with the name of a C object. -/
structure Plain (c : GoldenCase) : Prop where
  name : OneLine c.name.toList
  notes : OneLine c.notes.toList
  arrayName : ∀ d ∈ ['\n', '\r', ' ', '[', ']'], d ∉ c.arrayName.toList

def lenName (c : GoldenCase) : List Char := c.arrayName.toList ++ "_LEN".toList

/-- What a case declares: the macro of its length and the array of its frame. -/
def caseDecls (c : GoldenCase) : List Decl :=
  [.define (lenName c) (Nat.toDigits 10 c.totalLength),
    .array c.arrayName.toList (lenName c) c.expectedFrame]

variable {c : GoldenCase} {cases : List GoldenCase}

theorem not_mem_of_all {separators text : List Char}
    (h : separators.all (fun d => !text.contains d) = true) {d : Char} (hd : d ∈ separators) :
    d ∉ text := by
  simpa using List.all_eq_true.mp h d hd

theorem not_mem_lenName (h : Plain c) {d : Char} (hd : d ∈ ['\n', '\r', ' ', '[', ']']) :
    d ∉ lenName c := by
  rw [lenName, List.mem_append, not_or]
  refine ⟨h.arrayName d hd, not_mem_of_all ?_ hd⟩
  decide

theorem not_mem_toDigits {d : Char} (hd : d.isDigit = false) (n : Nat) :
    d ∉ Nat.toDigits 10 n := by
  intro hmem
  rw [Nat.isDigit_of_mem_toDigits (by decide) (by decide) hmem] at hd
  cases hd

theorem filterMap_caseLines (h : Plain c) : (caseLines c).filterMap readLine = caseDecls c := by
  have hdefine : readLine ("#define ".toList ++ c.arrayName.toList ++ "_LEN ".toList ++
      Nat.toDigits 10 c.totalLength) =
        some (.define (lenName c) (Nat.toDigits 10 c.totalLength)) := by
    rw [← readLine_define (not_mem_lenName h (by decide)), lenName]
    simp only [List.append_assoc]
    rfl
  have harray : readLine ("static const uint8_t ".toList ++ c.arrayName.toList ++ "[".toList ++
      c.arrayName.toList ++ "_LEN] = \x7b".toList ++ initialisers c.expectedFrame ++
        "\x7d;".toList) = some (.array c.arrayName.toList (lenName c) c.expectedFrame) := by
    rw [← readLine_array (h.arrayName '[' (by decide)) (not_mem_lenName h (by decide)), lenName]
    simp only [List.append_assoc]
    rfl
  have hcomment : readLine ("/* ".toList ++ c.name.toList ++ ": ".toList ++ c.notes.toList ++
      " */".toList) = none := by
    simp only [List.append_assoc]
    rfl
  simp only [caseLines, List.filterMap_cons, hcomment, hdefine, harray, caseDecls]
  rfl

theorem oneLine_initialisers (data : List UInt8) : OneLine (initialisers data) := by
  have hne : ∀ d ∈ ['\n', '\r'], d ∉ initialisers data := by
    intro d hd hmem
    have hother : d ≠ ',' ∧ d ≠ ' ' ∧ d ∈ [' ', ',', '}', '\n', '\r'] := by
      rcases List.mem_pair.mp hd with rfl | rfl <;> decide
    rcases mem_initialisers hmem with h | h | h
    · exact hother.1 h
    · exact hother.2.1 h
    · exact constantChar_ne h hother.2.2 rfl
  exact ⟨hne '\n' (by decide), hne '\r' (by decide)⟩

theorem oneLine_caseLines (h : Plain c) : ∀ line ∈ caseLines c, OneLine line := by
  have harr : OneLine c.arrayName.toList :=
    ⟨h.arrayName '\n' (by decide), h.arrayName '\r' (by decide)⟩
  have hdigits : OneLine (Nat.toDigits 10 c.totalLength) :=
    ⟨not_mem_toDigits (d := '\n') rfl _, not_mem_toDigits (d := '\r') rfl _⟩
  have hdata := oneLine_initialisers c.expectedFrame
  have hlines : OneLine [] := by decide
  simp only [caseLines, List.forall_mem_cons]
  refine ⟨?_, ?_, ?_, hlines, fun _ hline => absurd hline List.not_mem_nil⟩
  · exact .append (.append (.append (.append (by decide) h.name) (by decide)) h.notes) (by decide)
  · exact .append (.append (.append (by decide) harr) (by decide)) hdigits
  · exact .append (.append (.append (.append (.append (.append (by decide) harr) (by decide)) harr)
      (by decide)) hdata) (by decide)

theorem oneLine_headerLines (h : ∀ c ∈ cases, Plain c) :
    ∀ line ∈ headerLines cases, OneLine line := by
  have hstart : ∀ line ∈ headerLines [], OneLine line := by decide
  have hcases : ∀ line ∈ cases.flatMap caseLines, OneLine line := fun line hline => by
    obtain ⟨c, hc, hline⟩ := List.mem_flatMap.mp hline
    exact oneLine_caseLines (h c hc) line hline
  intro line hline
  simp only [headerLines, List.flatMap_nil, List.append_nil, List.mem_append] at hstart hline
  rcases hline with (hline | hline) | hline
  · exact hstart line (.inl hline)
  · exact hcases line hline
  · exact hstart line (.inr hline)

theorem intercalate_concat {ls : List (List Char)} (hls : ls ≠ []) (c : Char) :
    [c].intercalate ls ++ [c] = [c].intercalate (ls ++ [[]]) := by
  induction ls with
  | nil => exact absurd rfl hls
  | cons first rest ih =>
      cases rest with
      | nil => simp [List.intercalate_singleton, List.intercalate_cons_cons]
      | cons second rest =>
          rw [List.intercalate_cons_cons, List.append_assoc, ih (List.cons_ne_nil _ _)]
          simp [List.intercalate_cons_cons]

theorem declarations_renderH (h : ∀ c ∈ cases, Plain c) :
    declarations (renderH cases) =
      [.define "OU_GOLDEN_H".toList [],
        .define "OU_GOLDEN_CRC_KNOWN_ANSWER".toList "0x4B37".toList,
        .array "OU_GOLDEN_CRC_DATA_123456789".toList [] crcData] ++ cases.flatMap caseDecls := by
  have hne : headerLines cases ≠ [] := List.append_ne_nil_of_right_ne_nil _ (List.cons_ne_nil _ _)
  have hlines : ∀ line ∈ headerLines cases ++ [[]], '\n' ∉ line := by
    intro line hline
    rcases List.mem_append.mp hline with hline | hline
    · exact (oneLine_headerLines h line hline).1
    · rw [List.mem_singleton.mp hline]
      exact List.not_mem_nil
  have hdecls : (cases.flatMap caseLines).filterMap readLine = cases.flatMap caseDecls := by
    clear hlines hne
    induction cases with
    | nil => rfl
    | cons c cases ih =>
        rw [List.forall_mem_cons] at h
        rw [List.flatMap_cons, List.filterMap_append, filterMap_caseLines h.1, ih h.2,
          List.flatMap_cons]
  rw [declarations, renderH, intercalate_concat hne, List.splitOn_intercalate _ hlines
    (List.append_ne_nil_of_right_ne_nil _ (List.cons_ne_nil _ _)), headerLines,
    List.filterMap_append, List.filterMap_append, List.filterMap_append, hdecls]
  have hend : ["#endif /* OU_GOLDEN_H */".toList].filterMap readLine = [] := by decide
  rw [hend, List.append_nil, show [([] : List Char)].filterMap readLine = [] from rfl,
    List.append_nil]
  rfl

theorem cr_not_mem_renderH (h : ∀ c ∈ cases, Plain c) : '\r' ∉ renderH cases := by
  intro hmem
  rcases List.mem_append.mp hmem with hmem | hmem
  · rcases mem_of_mem_intercalate hmem with hmem | ⟨line, hline, hmem⟩
    · exact absurd hmem (by decide)
    · exact (oneLine_headerLines h line hline).2 hmem
  · exact absurd hmem (by decide)

section Cases

variable {py : Runtime} {schema : PyVal}

/-- A case of a packet: the frame of its inputs, under the names it is asked for. -/
structure CaseOf (py : Runtime) (schema : PyVal) (k : PacketType) (c : GoldenCase) : Prop where
  name : c.name = packetName k
  arrayName : c.arrayName = arrayNameOf k
  notes : c.notes = notesOf k
  inputs : c.inputs = inputsOf k
  totalLength : c.totalLength = c.expectedFrame.length
  frame : ∃ frame layout payload type, frameOf schema (packetName k) = .ok frame ∧
    layoutOfFrame py frame = .ok layout ∧ buildPayload py layout (inputsOf k) = .ok payload ∧
    frame.getItem (.str "type") = .ok c.frameType ∧ OneByte c.frameType type ∧
    payload.length ≤ 255 ∧ c.payloadSize = payload.length ∧
    c.expectedFrame = encodeFrame payload type

theorem caseOf_of_caseFromInputs {k : PacketType}
    (h : caseFromInputs py schema (packetName k) (inputsOf k) (arrayNameOf k) (notesOf k) =
      .ok c) : CaseOf py schema k c := by
  simp only [caseFromInputs, bind_eq_ok, pure_eq_ok] at h
  obtain ⟨frames, hframes, frame, hframe, v, hv, items, hitems, layout, hlayout, payload,
    hpayload, frameType, htype, expected, hbuild, rfl⟩ := h
  obtain ⟨hlen, type, hbyte, hexpected⟩ := buildFrame_eq_ok.mp hbuild
  have hframeOf : frameOf schema (packetName k) = .ok frame :=
    bind_eq_ok.mpr ⟨frames, hframes, hframe⟩
  have hlayoutOf : layoutOfFrame py frame = .ok layout := by
    simp only [layoutOfFrame, bind_eq_ok]
    exact ⟨v, hv, items, hitems, hlayout⟩
  exact ⟨rfl, rfl, rfl, rfl, rfl, frame, layout, payload, type, hframeOf, hlayoutOf, hpayload,
    htype, hbyte, hlen, rfl, hexpected⟩

theorem caseOf_of_makeCases (h : makeCases py schema = .ok cases) :
    List.Forall₂ (CaseOf py schema) [.cmd, .tele] cases :=
  (mapM_eq_ok.mp h).imp fun _ _ => caseOf_of_caseFromInputs

theorem exists_of_forall₂ {α : Type} {p : PacketType → α → Prop} {xs : List α}
    (h : List.Forall₂ p [.cmd, .tele] xs) (k : PacketType) : ∃ x ∈ xs, p k x := by
  obtain _ | ⟨hcmd, _ | ⟨htele, _ | _⟩⟩ := h
  cases k with
  | cmd => exact ⟨_, by simp, hcmd⟩
  | tele => exact ⟨_, by simp, htele⟩

theorem CaseOf.plain {k : PacketType} (h : CaseOf py schema k c) : Plain c := by
  constructor
  · rw [h.name]
    cases k with
    | cmd => decide
    | tele => decide
  · rw [h.notes]
    cases k with
    | cmd => decide
    | tele => decide
  · rw [h.arrayName]
    cases k with
    | cmd => exact fun d => not_mem_of_all (by decide)
    | tele => exact fun d => not_mem_of_all (by decide)

theorem plain_of_makeCases (h : makeCases py schema = .ok cases) : ∀ c ∈ cases, Plain c := by
  obtain _ | ⟨hcmd, _ | ⟨htele, _ | _⟩⟩ := caseOf_of_makeCases h
  simp only [List.forall_mem_cons, List.not_mem_nil, false_implies, implies_true, and_true]
  exact ⟨hcmd.plain, htele.plain⟩

theorem decimal_toDigits (n : Nat) : decimal (Nat.toDigits 10 n) = some n := by
  have hdigits : (Nat.toDigits 10 n).all Char.isDigit = true := List.all_eq_true.mpr fun c hc =>
    Nat.isDigit_of_mem_toDigits (by decide) (by decide) hc
  rw [decimal, if_pos ⟨hdigits, Nat.toDigits_ne_nil⟩, Nat.ofDigitChars_ten_toDigits]

/-- The array of each packet in the header of its cases has the bytes of its frame for
initialisers, as many as its macro states. -/
theorem arrayDecl_renderH (h : makeCases py schema = .ok cases) :
    List.Forall₂ (fun k c => CaseOf py schema k c ∧
      (∃ size, arrayDecl (declarations (renderH cases)) (arrayNameOf k).toList =
        some (size, c.expectedFrame)) ∧
      arrayLength (declarations (renderH cases)) (arrayNameOf k).toList =
        some c.expectedFrame.length) [.cmd, .tele] cases := by
  rw [declarations_renderH (plain_of_makeCases h)]
  obtain _ | ⟨hcmd, _ | ⟨htele, _ | _⟩⟩ := caseOf_of_makeCases h
  rename_i cmd tele
  have hlength : ∀ k c, CaseOf py schema k c →
      decimal (Nat.toDigits 10 c.totalLength) = some c.expectedFrame.length := by
    intro k c hc
    rw [decimal_toDigits, hc.totalLength]
  simp only [List.flatMap_cons, List.flatMap_nil, caseDecls, lenName, hcmd.arrayName,
    htele.arrayName]
  exact .cons ⟨hcmd, ⟨_, rfl⟩, hlength .cmd cmd hcmd⟩
    (.cons ⟨htele, ⟨_, rfl⟩, hlength .tele tele htele⟩ .nil)

theorem arrayBytes_renderH (h : makeCases py schema = .ok cases) :
    List.Forall₂ (fun k c => CaseOf py schema k c ∧
      arrayBytes (declarations (renderH cases)) (arrayNameOf k).toList =
        some c.expectedFrame) [.cmd, .tele] cases :=
  (arrayDecl_renderH h).imp fun _ _ ⟨hcase, ⟨_, hdecl⟩, hlength⟩ =>
    ⟨hcase, arrayBytes_of_arrayLength hdecl hlength⟩

/-- Read as C, the golden header holds for each packet an array with as many initialisers as
its length macro states: the frame that the reference encoder builds from the schema,
which the datagram check and the stream parser take whole. -/
theorem golden_header_valid (h : makeCases py schema = .ok cases) (k : PacketType) :
    ∃ frame layout payload frameType type,
      frameOf schema (packetName k) = .ok frame ∧ layoutOfFrame py frame = .ok layout ∧
        buildPayload py layout (inputsOf k) = .ok payload ∧
        frame.getItem (.str "type") = .ok frameType ∧ OneByte frameType type ∧
        (∃ size, arrayDecl (declarations (renderH cases)) (arrayNameOf k).toList =
          some (size, encodeFrame payload type)) ∧
        arrayLength (declarations (renderH cases)) (arrayNameOf k).toList =
          some (encodeFrame payload type).length ∧
        arrayBytes (declarations (renderH cases)) (arrayNameOf k).toList =
          some (encodeFrame payload type) ∧
        checkDatagram (encodeFrame payload type) = some (encodeFrame payload type) ∧
        (({} : FrameParser).feed (encodeFrame payload type)).nextFrame.1 =
          some (encodeFrame payload type) := by
  obtain ⟨c, -, hcase, ⟨size, hdecl⟩, hlength⟩ := exists_of_forall₂ (arrayDecl_renderH h) k
  obtain ⟨frame, layout, payload, type, hframe, hlayout, hpayload, htype, hbyte, hle, -,
    hexpected⟩ := hcase.frame
  have hvalid : ValidFrame (encodeFrame payload type) := ⟨payload, type, hle, rfl⟩
  rw [hexpected] at hdecl hlength
  exact ⟨frame, layout, payload, c.frameType, type, hframe, hlayout, hpayload, htype, hbyte,
    ⟨size, hdecl⟩, hlength, arrayBytes_of_arrayLength hdecl hlength,
    checkDatagram_eq_some_iff.mpr ⟨rfl, hvalid⟩, nextFrame_feed_eq_iff.mpr hvalid⟩

set_option maxRecDepth 4000 in
theorem exists_makeCases :
    ∃ cases, makeCases plainRuntime.toRuntime ProtocolSchema.protocolYaml = .ok cases := ⟨_, rfl⟩

theorem protocol_golden_header : ∃ cases frame,
    makeCases plainRuntime.toRuntime ProtocolSchema.protocolYaml = .ok cases ∧
      arrayBytes (declarations (renderH cases)) "OU_GOLDEN_CMD_FRAME".toList = some frame ∧
      checkDatagram frame = some frame := by
  obtain ⟨cases, h⟩ := exists_makeCases
  obtain ⟨-, -, payload, -, type, -, -, -, -, -, -, -, hbytes, hcheck, -⟩ :=
    golden_header_valid h .cmd
  exact ⟨cases, encodeFrame payload type, h, hbytes, hcheck⟩

end Cases

end RovSdk.GoldenHeader
