import RovSdk.HeaderReader
import RovSdk.JsonText

namespace RovSdk.GoldenJson

open RovSdk.Results
open RovSdk.ProtocolBytes
open RovSdk.Packets
open RovSdk.PythonValues
open RovSdk.FrameFormat
open RovSdk.SchemaValidator
open RovSdk.CodeGenerator
open RovSdk.FrameLayouts
open RovSdk.GeneratorContext (packetName)
open RovSdk.ProtocolSchema (protocolYaml)
open RovSdk.GoldenGenerator (GoldenCase caseFromInputs buildPayload)
open RovSdk.GoldenFrames
open RovSdk.GoldenHeader
open RovSdk.HeaderText (intText)
open RovSdk.HeaderReader (intText_of_nonneg)
open RovSdk.JsonText

section Printing

theorem isAtomChar_of_mem_toDigits {n : Nat} {c : Char} (h : c ∈ Nat.toDigits 10 n) :
    isAtomChar c = true := by
  rw [isAtomChar, Char.isAlphanum, Nat.isDigit_of_mem_toDigits (by decide) (by decide) h,
    Bool.or_true, Bool.true_or]

def intAtom (n : Int) : Atom where
  text := intText n
  nonempty := List.append_ne_nil_of_right_ne_nil _ Nat.toDigits_ne_nil
  chars := by
    rw [List.all_eq_true]
    intro c hc
    rcases List.mem_append.mp hc with hc | hc
    · split_ifs at hc
      · rw [List.mem_singleton.mp hc]
        decide
      · exact absurd hc List.not_mem_nil
    · exact isAtomChar_of_mem_toDigits hc

def nullAtom : Atom := ⟨"null".toList, by decide, by decide⟩

def boolAtom : Bool → Atom
  | true => ⟨"true".toList, by decide, by decide⟩
  | false => ⟨"false".toList, by decide, by decide⟩

/-- The digits behind the point, at least one, of a number of thousandths. -/
def fractionText (n : Nat) : List Char :=
  Nat.toDigits 10 (n / 100) ++ if n % 100 = 0 then [] else
    Nat.toDigits 10 (n / 10 % 10) ++ if n % 10 = 0 then [] else Nat.toDigits 10 (n % 10)

/-- The thousandths of a float below 2^24 without its sign; exact for whole eighths. -/
def thousandths (bits : UInt32) : Nat :=
  let magnitude := bits.toNat % 2 ^ 31
  if magnitude = 0 then 0
  else (2 ^ 23 + magnitude % 2 ^ 23) * 1000 / 2 ^ (150 - magnitude / 2 ^ 23)

/-- The literal of a float that is a whole number of eighths. -/
def plainFloat (bits : UInt32) : Atom where
  text := (if 2 ^ 31 ≤ bits.toNat then ['-'] else []) ++
    (Nat.toDigits 10 (thousandths bits / 1000) ++ '.' :: fractionText (thousandths bits % 1000))
  nonempty := List.append_ne_nil_of_right_ne_nil _
    (List.append_ne_nil_of_right_ne_nil _ (List.cons_ne_nil _ _))
  chars := by
    rw [List.all_eq_true, fractionText]
    intro c hc
    simp only [List.mem_append, List.mem_cons, List.mem_ite_nil_left] at hc
    rcases hc with hc | hc | rfl | hc | ⟨-, hc | ⟨-, hc⟩⟩
    · split_ifs at hc
      · rw [List.mem_singleton.mp hc]
        decide
      · exact absurd hc List.not_mem_nil
    · exact isAtomChar_of_mem_toDigits hc
    · decide
    · exact isAtomChar_of_mem_toDigits hc
    · exact isAtomChar_of_mem_toDigits hc
    · exact isAtomChar_of_mem_toDigits hc

-- the literals of floats, as Python prints them
variable (floatText : UInt32 → Atom)

def jsonKey : PyVal → Except PyError (List Char)
  | .str s => .ok s.toList
  | .int n => .ok (intAtom n).text
  | .bool b => .ok (boolAtom b).text
  | .none => .ok nullAtom.text
  | .float bits => .ok (floatText bits).text
  | .list _ | .dict _ => .error .typeError

mutual

def jsonOf : PyVal → Except PyError Json
  | .none => .ok (.atom nullAtom)
  | .bool b => .ok (.atom (boolAtom b))
  | .int n => .ok (.atom (intAtom n))
  | .float bits => .ok (.atom (floatText bits))
  | .str s => .ok (.str s.toList)
  | .list items => do return .list (← jsonItems items)
  | .dict entries => do return .obj (← jsonMembers entries)

def jsonItems : List PyVal → Except PyError (List Json)
  | [] => .ok []
  | item :: items => do return (← jsonOf item) :: (← jsonItems items)

def jsonMembers : List (PyVal × PyVal) → Except PyError (List (List Char × Json))
  | [] => .ok []
  | (key, value) :: entries => do
      let text ← jsonKey floatText key
      return (text, ← jsonOf value) :: (← jsonMembers entries)

end

def caseDict (c : GoldenCase) : PyVal :=
  .dict [(.str "name", .str c.name), (.str "array_name", .str c.arrayName),
    (.str "frame_type", c.frameType), (.str "payload_size", .int c.payloadSize),
    (.str "total_length", .int c.totalLength), (.str "notes", .str c.notes),
    (.str "inputs", c.inputs),
    (.str "expected_frame", .list (c.expectedFrame.map fun b => .int b.toNat))]

def crcKnownAnswer : PyVal :=
  .dict [(.str "input", .str "123456789"), (.str "expected", .str "0x4B37")]

def payloadOf (cases : List GoldenCase) : PyVal :=
  .dict [(.str "auto_header", .str autoHeader), (.str "crc_known_answer", crcKnownAnswer),
    (.str "cases", .list (cases.map caseDict))]

def renderJson (cases : List GoldenCase) : Except PyError (List Char) := do
  return dumps (← jsonOf floatText (payloadOf cases)) ++ ['\n']

end Printing

section Reading

def field (name : String) : Json → Option Json
  | .obj members => members.lookup name.toList
  | _ => none

def itemsOf : Json → Option (List Json)
  | .list items => some items
  | _ => none

def textOf : Json → Option (List Char)
  | .str chars => some chars
  | _ => none

def natOf : Json → Option Nat
  | .atom a => decimal a.text
  | _ => none

def byteOf (value : Json) : Option UInt8 :=
  (natOf value).bind fun n => if n < 256 then some (UInt8.ofNat n) else none

/-- The byte that a number states, or a flag. -/
def typeOf : Json → Option UInt8
  | .atom a =>
      if a = boolAtom true then some 1
      else if a = boolAtom false then some 0
      else byteOf (.atom a)
  | _ => none

structure CaseEntry where
  name : List Char
  arrayName : List Char
  frameType : UInt8
  payloadSize : Nat
  totalLength : Nat
  inputs : Json
  expectedFrame : List UInt8

def readCase (value : Json) : Option CaseEntry := do
  return {
    name := ← textOf (← field "name" value)
    arrayName := ← textOf (← field "array_name" value)
    frameType := ← typeOf (← field "frame_type" value)
    payloadSize := ← natOf (← field "payload_size" value)
    totalLength := ← natOf (← field "total_length" value)
    inputs := ← field "inputs" value
    expectedFrame := ← (← itemsOf (← field "expected_frame" value)).mapM byteOf }

def readCases (text : List Char) : Option (List CaseEntry) := do
  (← itemsOf (← field "cases" (← parse text))).mapM readCase

end Reading

section Conversion

variable {floatText : UInt32 → Atom}

theorem jsonItems_eq_ok {values : List PyVal} {items : List Json} :
    jsonItems floatText values = .ok items ↔
      List.Forall₂ (fun value item => jsonOf floatText value = .ok item) values items := by
  induction values generalizing items with
  | nil => simp [jsonItems, eq_comm]
  | cons value values ih =>
      simp only [jsonItems, bind_eq_ok, pure_eq_ok, ih, List.forall₂_cons_left_iff]
      constructor
      · rintro ⟨item, hitem, items, hitems, rfl⟩
        exact ⟨item, items, hitem, hitems, rfl⟩
      · rintro ⟨item, items, hitem, hitems, rfl⟩
        exact ⟨item, hitem, items, hitems, rfl⟩

theorem jsonOf_dict {keys : List String} {values : List PyVal} {items : List Json}
    (h : jsonItems floatText values = .ok items) :
    jsonOf floatText (.dict ((keys.map PyVal.str).zip values)) =
      .ok (.obj ((keys.map String.toList).zip items)) := by
  have hmembers : jsonMembers floatText ((keys.map PyVal.str).zip values) =
      .ok ((keys.map String.toList).zip items) := by
    rw [jsonItems_eq_ok] at h
    induction h generalizing keys with
    | nil => simp [jsonMembers]
    | cons hvalue hvalues ih =>
        cases keys with
        | nil => rfl
        | cons key keys =>
            simp only [List.map_cons, List.zip_cons_cons, jsonMembers, jsonKey, hvalue, ih,
              ok_bind]
            rfl
  rw [jsonOf, hmembers]
  rfl

theorem field_zip {keys : List String} {items : List Json} {name : String} {value : Json}
    (hnodup : keys.Nodup) (i : Nat) (hkey : keys[i]? = some name)
    (hitem : items[i]? = some value) :
    field name (.obj ((keys.map String.toList).zip items)) = some value := by
  rw [field]
  induction keys generalizing items i with
  | nil => cases hkey
  | cons key keys ih =>
      rw [List.nodup_cons] at hnodup
      cases items with
      | nil => cases hitem
      | cons item items =>
          rw [List.map_cons, List.zip_cons_cons, List.lookup_cons]
          cases i with
          | zero =>
              obtain rfl := Option.some.inj hkey
              rw [beq_self_eq_true]
              exact hitem
          | succ i =>
              have hne : key ≠ name := fun h => hnodup.1 (h ▸ List.mem_of_getElem? hkey)
              have hfalse : (name.toList == key.toList) = false :=
                beq_eq_false_iff_ne.mpr fun h => hne (String.toList_injective h.symm)
              rw [hfalse]
              exact ih hnodup.2 i hkey hitem

theorem natOf_intAtom (n : Nat) : natOf (.atom (intAtom n)) = some n := by
  have htext : (intAtom n).text = Nat.toDigits 10 n := intText_of_nonneg (Int.natCast_nonneg n)
  rw [natOf, htext, decimal_toDigits]

theorem byteOf_intAtom (b : UInt8) : byteOf (.atom (intAtom b.toNat)) = some b := by
  rw [byteOf, natOf_intAtom, Option.bind_some, if_pos b.toNat_lt, UInt8.ofNat_toNat]

theorem typeOf_intAtom (b : UInt8) : typeOf (.atom (intAtom b.toNat)) = some b := by
  -- a number is no flag, as the letters of a flag are no decimal literal
  have hne : ∀ flag, intAtom b.toNat ≠ boolAtom flag := by
    intro flag h
    have hnat := natOf_intAtom b.toNat
    rw [h] at hnat
    cases flag <;> cases hnat
  rw [typeOf, if_neg (hne true), if_neg (hne false), byteOf_intAtom]

/-- A type that fits one byte is printed as a number or a flag, and read as that byte. -/
theorem jsonOf_oneByte (floatText : UInt32 → Atom) {frameType : PyVal} {type : UInt8}
    (h : OneByte frameType type) :
    ∃ value, jsonOf floatText frameType = .ok value ∧ typeOf value = some type := by
  cases frameType with
  | bool flag =>
      refine ⟨_, rfl, ?_⟩
      have htype := Option.some.inj h
      cases flag with
      | true =>
          obtain rfl : type = 1 := UInt8.toNat_inj.mp (Int.ofNat.inj htype).symm
          rfl
      | false =>
          obtain rfl : type = 0 := UInt8.toNat_inj.mp (Int.ofNat.inj htype).symm
          rfl
  | int n =>
      obtain rfl := Option.some.inj h
      exact ⟨_, rfl, typeOf_intAtom type⟩
  | none => cases h
  | float bits => cases h
  | str s => cases h
  | list items => cases h
  | dict entries => cases h

theorem exists_jsonOf_inputs (floatText : UInt32 → Atom) (k : PacketType) :
    ∃ value, jsonOf floatText (inputsOf k) = .ok value := by
  cases k <;> exact ⟨_, rfl⟩

end Conversion

section Cases

variable {floatText : UInt32 → Atom}

def caseKeys : List String :=
  ["name", "array_name", "frame_type", "payload_size", "total_length", "notes", "inputs",
    "expected_frame"]

def caseValues (c : GoldenCase) : List PyVal :=
  [.str c.name, .str c.arrayName, c.frameType, .int c.payloadSize, .int c.totalLength,
    .str c.notes, c.inputs, .list (c.expectedFrame.map fun b => .int b.toNat)]

def bytesJson (bytes : List UInt8) : Json := .list (bytes.map fun b => .atom (intAtom b.toNat))

/-- What a case is printed as, for what its type and its inputs are printed as. -/
def caseItems (c : GoldenCase) (type inputs : Json) : List Json :=
  [.str c.name.toList, .str c.arrayName.toList, type, .atom (intAtom c.payloadSize),
    .atom (intAtom c.totalLength), .str c.notes.toList, inputs, bytesJson c.expectedFrame]

def caseJson (c : GoldenCase) (type inputs : Json) : Json :=
  .obj ((caseKeys.map String.toList).zip (caseItems c type inputs))

theorem jsonOf_caseDict {c : GoldenCase} {type inputs : Json}
    (htype : jsonOf floatText c.frameType = .ok type)
    (hinputs : jsonOf floatText c.inputs = .ok inputs) :
    jsonOf floatText (caseDict c) = .ok (caseJson c type inputs) := by
  have hbytes : jsonOf floatText (.list (c.expectedFrame.map fun b => .int b.toNat)) =
      .ok (bytesJson c.expectedFrame) := by
    have hitems : jsonItems floatText (c.expectedFrame.map fun b => .int b.toNat) =
        .ok (c.expectedFrame.map fun b => .atom (intAtom b.toNat)) := by
      rw [jsonItems_eq_ok, List.forall₂_map_left_iff, List.forall₂_map_right_iff,
        List.forall₂_same]
      exact fun _ _ => rfl
    rw [jsonOf, hitems]
    rfl
  have hdict : caseDict c = .dict ((caseKeys.map PyVal.str).zip (caseValues c)) := rfl
  rw [hdict, caseJson]
  refine jsonOf_dict (jsonItems_eq_ok.mpr ?_)
  exact .cons rfl (.cons rfl (.cons htype (.cons rfl (.cons rfl (.cons rfl (.cons hinputs
    (.cons hbytes .nil)))))))

def entryOf (c : GoldenCase) (type : UInt8) (inputs : Json) : CaseEntry where
  name := c.name.toList
  arrayName := c.arrayName.toList
  frameType := type
  payloadSize := c.payloadSize
  totalLength := c.totalLength
  inputs := inputs
  expectedFrame := c.expectedFrame

theorem readCase_caseJson {c : GoldenCase} {type inputs : Json} {b : UInt8}
    (htype : typeOf type = some b) :
    readCase (caseJson c type inputs) = some (entryOf c b inputs) := by
  have hnodup : caseKeys.Nodup := by decide
  have hfield : ∀ {name value} (i : Nat), caseKeys[i]? = some name →
      (caseItems c type inputs)[i]? = some value →
      field name (caseJson c type inputs) = some value := field_zip hnodup
  have hbytes : (c.expectedFrame.map fun b => Json.atom (intAtom b.toNat)).mapM byteOf =
      some c.expectedFrame := by
    have hmapM := mapM_eq_some (h := id) byteOf_intAtom c.expectedFrame
    rwa [List.map_id] at hmapM
  rw [readCase, hfield 0 rfl rfl, hfield 1 rfl rfl, hfield 2 rfl rfl, hfield 3 rfl rfl,
    hfield 4 rfl rfl, hfield 6 rfl rfl, hfield 7 rfl rfl]
  simp only [Option.bind_eq_bind, Option.bind_some, textOf, htype, natOf_intAtom, itemsOf,
    bytesJson, hbytes]
  rfl

variable {cases : List GoldenCase} {entries : List CaseEntry}

/-- A case with an entry that it is printed and read as. -/
def Prints (floatText : UInt32 → Atom) (c : GoldenCase) (e : CaseEntry) : Prop :=
  ∃ value, jsonOf floatText (caseDict c) = .ok value ∧ readCase value = some e

theorem mapM_of_prints (h : List.Forall₂ (Prints floatText) cases entries) :
    ∃ items, jsonItems floatText (cases.map caseDict) = .ok items ∧
      items.mapM readCase = some entries := by
  induction h with
  | nil => exact ⟨[], rfl, rfl⟩
  | cons hcase hcases ih =>
      obtain ⟨value, hvalue, hread⟩ := hcase
      obtain ⟨items, hitems, hmapM⟩ := ih
      refine ⟨value :: items, ?_, ?_⟩
      · rw [List.map_cons, jsonItems, hvalue, hitems]
        rfl
      · rw [List.mapM_cons, hread, hmapM]
        rfl

theorem readCases_renderJson (h : List.Forall₂ (Prints floatText) cases entries) :
    ∃ text, renderJson floatText cases = .ok text ∧ readCases text = some entries := by
  obtain ⟨items, hitems, hmapM⟩ := mapM_of_prints h
  have hcases : jsonOf floatText (.list (cases.map caseDict)) = .ok (.list items) := by
    rw [jsonOf, hitems]
    rfl
  obtain ⟨answer, hanswer⟩ : ∃ answer, jsonOf floatText crcKnownAnswer = .ok answer := ⟨_, rfl⟩
  let keys := ["auto_header", "crc_known_answer", "cases"]
  have hkeys : payloadOf cases = .dict ((keys.map PyVal.str).zip
    [.str autoHeader, crcKnownAnswer, .list (cases.map caseDict)]) := rfl
  have hpayload : jsonOf floatText (payloadOf cases) =
      .ok (.obj ((keys.map String.toList).zip [.str autoHeader.toList, answer, .list items])) := by
    rw [hkeys]
    exact jsonOf_dict (jsonItems_eq_ok.mpr (.cons rfl (.cons hanswer (.cons hcases .nil))))
  have hfield : field "cases"
      (.obj ((keys.map String.toList).zip [.str autoHeader.toList, answer, .list items])) =
        some (.list items) := field_zip (by decide) 2 rfl rfl
  refine ⟨_, by rw [renderJson, hpayload]; rfl, ?_⟩
  have hparse := parse_dumps
    (.obj ((keys.map String.toList).zip [.str autoHeader.toList, answer, .list items])) 1
  rw [List.replicate_one] at hparse
  rw [readCases, hparse, Option.bind_eq_bind, Option.bind_some, hfield]
  exact hmapM

end Cases

section Agreement

variable {floatText : UInt32 → Atom} {py : Runtime} {schema : PyVal} {cases : List GoldenCase}

/-- The entry of a packet, against the schema and the cases it was made from: the frame of
the inputs that it shows, which is the array of the header. -/
structure Agrees (floatText : UInt32 → Atom) (py : Runtime) (schema : PyVal)
    (cases : List GoldenCase) (k : PacketType) (e : CaseEntry) : Prop where
  name : e.name = (packetName k).toList
  arrayName : e.arrayName = (arrayNameOf k).toList
  inputs : jsonOf floatText (inputsOf k) = .ok e.inputs
  frame : ∃ frame layout payload, frameOf schema (packetName k) = .ok frame ∧
    layoutOfFrame py frame = .ok layout ∧ buildPayload py layout (inputsOf k) = .ok payload ∧
    payload.length = e.payloadSize ∧ payload.length ≤ 255 ∧
    e.expectedFrame = encodeFrame payload e.frameType
  totalLength : e.expectedFrame.length = e.totalLength
  array : arrayBytes (declarations (renderH cases)) e.arrayName = some e.expectedFrame

theorem exists_entry {k : PacketType} {c : GoldenCase} (floatText : UInt32 → Atom)
    (hcase : CaseOf py schema k c) (harray : arrayBytes (declarations (renderH cases))
      (arrayNameOf k).toList = some c.expectedFrame) :
    ∃ e, Prints floatText c e ∧ Agrees floatText py schema cases k e := by
  obtain ⟨frame, layout, payload, type, hframe, hlayout, hpayload, -, hbyte, hle, hsize,
    hexpected⟩ := hcase.frame
  obtain ⟨typeJson, htype, hread⟩ := jsonOf_oneByte floatText hbyte
  obtain ⟨inputs, hinputs⟩ := exists_jsonOf_inputs floatText k
  have hcaseInputs : jsonOf floatText c.inputs = .ok inputs := by rw [hcase.inputs, hinputs]
  refine ⟨entryOf c type inputs, ⟨_, jsonOf_caseDict htype hcaseInputs, readCase_caseJson hread⟩,
    ?_⟩
  exact {
    name := congrArg String.toList hcase.name
    arrayName := congrArg String.toList hcase.arrayName
    inputs := hinputs
    frame := ⟨frame, layout, payload, hframe, hlayout, hpayload, hsize.symm, hle, hexpected⟩
    totalLength := hcase.totalLength.symm
    array := by rw [entryOf, hcase.arrayName, harray] }

theorem exists_entries (floatText : UInt32 → Atom) (h : makeCases py schema = .ok cases) :
    ∃ entries, List.Forall₂ (Prints floatText) cases entries ∧
      List.Forall₂ (Agrees floatText py schema cases) [.cmd, .tele] entries := by
  obtain _ | ⟨⟨hcmd, hcmdArray⟩, _ | ⟨⟨htele, hteleArray⟩, _ | _⟩⟩ := arrayBytes_renderH h
  obtain ⟨cmdEntry, hcmdPrints, hcmdAgrees⟩ := exists_entry floatText hcmd hcmdArray
  obtain ⟨teleEntry, htelePrints, hteleAgrees⟩ := exists_entry floatText htele hteleArray
  exact ⟨[cmdEntry, teleEntry], .cons hcmdPrints (.cons htelePrints .nil),
    .cons hcmdAgrees (.cons hteleAgrees .nil)⟩

/-- The golden cases of a schema can be printed as JSON, and the file reads back to one
entry for each packet: the inputs, and the frame around the payload that the schema makes
of them, with its sizes and type, the same bytes as the array that the header declares
under the name the entry gives. -/
theorem golden_files_agree (floatText : UInt32 → Atom) (h : makeCases py schema = .ok cases) :
    ∃ text entries, renderJson floatText cases = .ok text ∧ readCases text = some entries ∧
      List.Forall₂ (Agrees floatText py schema cases) [.cmd, .tele] entries := by
  obtain ⟨entries, hprints, hagree⟩ := exists_entries floatText h
  obtain ⟨text, hrender, hread⟩ := readCases_renderJson hprints
  exact ⟨text, entries, hrender, hread, hagree⟩

theorem protocol_golden_files : ∃ cases text entries,
    makeCases plainRuntime.toRuntime protocolYaml = .ok cases ∧
      renderJson plainFloat cases = .ok text ∧ readCases text = some entries ∧
      List.Forall₂ (Agrees plainFloat plainRuntime.toRuntime protocolYaml cases) [.cmd, .tele]
        entries := by
  obtain ⟨cases, h⟩ := exists_makeCases
  obtain ⟨text, entries, hrender, hread, hagree⟩ := golden_files_agree plainFloat h
  exact ⟨cases, text, entries, h, hrender, hread, hagree⟩

end Agreement

end RovSdk.GoldenJson
