import Mathlib.Algebra.Ring.Int.Defs
import RovSdk.SchemaValidator

/-!
The code generator: `make_ctx` and the four templates.  A rendered artifact is the record
of what its template substitutes; the fixed text around it is left out.
-/

namespace RovSdk.CodeGenerator

open RovSdk.PythonValues
open RovSdk.SchemaLayout
open RovSdk.SchemaValidator

/-- What the templates use of the runtime besides: `int(str(v), 0)`, the truth of a float
and its comparison with 1, and two methods of `str`. -/
structure TextRuntime extends Runtime where
  intOfStr : PyVal → Except PyError Int
  floatTruth : UInt32 → Bool
  floatAboveOne : UInt32 → Bool
  capitalize : String → String
  upper : String → String

/-- A text with a capital at its front only, for ASCII. -/
def capitalizeAscii (s : String) : String :=
  String.ofList ((s.toList.map Char.toLower).modifyHead Char.toUpper)

/-- The runtime where nothing but an integer is made an integer or a float, and names are
in ASCII. -/
def plainRuntime : TextRuntime where
  intOfFloat _ := .error (.valueError [])
  intOfText _ := .error (.valueError [])
  f32OfInt _ := .error .structError
  f32OfText _ := .error (.valueError [])
  intOfStr
    | .int n => .ok n
    | _ => .error (.valueError [])
  floatTruth bits := bits &&& 0x7FFFFFFF != 0
  floatAboveOne bits := 0x3F800000 < bits && bits ≤ 0x7F800000
  capitalize := capitalizeAscii
  upper s := String.ofList (s.toList.map Char.toUpper)

structure Ctx where
  version : PyVal
  frame : PyVal
  stx0 : Int
  stx1 : Int
  typeCmd : PyVal
  typeTele : PyVal
  numThrusters : Int
  frameOverhead : Int
  cmdSize : Int
  teleSize : Int
  cmdFields : List LayoutField
  teleFields : List LayoutField
  modeValues : PyVal

def totalSize (fields : List LayoutField) : Int := (fields.map LayoutField.size).sum

/-- `compute_layout(frame["fields"])`. -/
def layoutOfFrame (py : Runtime) (frame : PyVal) : Except PyError (List LayoutField) := do
  computeLayout py (← (← frame.getItem (.str "fields")).items)

def makeCtx (py : TextRuntime) (schema : PyVal) : Except PyError Ctx := do
  let frameMeta ← schema.getItem (.str "frame")
  let cmd ← frameOf schema "CmdPacket"
  let tele ← frameOf schema "TelemetryPacket"
  let cmdFields ← layoutOfFrame py.toRuntime cmd
  let teleFields ← layoutOfFrame py.toRuntime tele
  let stx ← py.intOfStr (← frameMeta.getItem (.str "stx"))
  let modeValues ←
    (← (← schema.getItem (.str "enums")).getItem (.str "Mode")).getItem (.str "values")
  let version ← schema.getItem (.str "version")
  let typeCmd ← cmd.getItem (.str "type")
  let typeTele ← tele.getItem (.str "type")
  return {
    version := version
    frame := frameMeta
    stx0 := stx / 256 % 256
    stx1 := stx % 256
    typeCmd := typeCmd
    typeTele := typeTele
    numThrusters :=
      ((teleFields.find? fun f => f.name.sameKey (.str "thr")).map LayoutField.count).getD 8
    frameOverhead := 7
    cmdSize := totalSize cmdFields
    teleSize := totalSize teleFields
    cmdFields := cmdFields
    teleFields := teleFields
    modeValues := modeValues }

/-- `"%0…X" % v` behind `0x`: the sign counts for the width. -/
def hexText (width : Nat) (v : PyVal) : Except PyError (List Char) :=
  match v.keyInt with
  | none => .error .typeError
  | some n =>
      let digits := (Nat.toDigits 16 n.natAbs).map Char.toUpper
      let sign := if n < 0 then ['-'] else []
      let zeros := List.replicate (width - sign.length - digits.length) '0'
      .ok (['0', 'x'] ++ sign ++ zeros ++ digits)

/-- The keys of `CPP_TYPE`, `C_TYPE` and `MSG_TYPE`; a table has no text for another. -/
inductive ElemType where
  | u8
  | f32
  deriving DecidableEq, Repr

def ElemType.size : ElemType → Int
  | u8 => 1
  | f32 => 4

def elemType (type : PyVal) : Option ElemType :=
  if type.sameKey (.str "u8") then some .u8
  else if type.sameKey (.str "f32") then some .f32
  else none

/-- A member of a generated struct: an array where a count is given, else a scalar. -/
structure Member where
  type : Option ElemType
  name : PyVal
  count : Option Int
  notes : PyVal

def member (f : LayoutField) : Member :=
  { type := elemType f.type
    name := f.name
    count := if f.count > 1 then some f.count else none
    notes := f.notes }

/-- `_camel`; a name that is no text has no `split`. -/
def camel (py : TextRuntime) (name : PyVal) : Gen String :=
  match name with
  | .str s =>
      .ok (String.join ((s.toList.splitOn '_').map fun part => py.capitalize (String.ofList part)))
  | _ => .error (.python .attributeError)

/-- `name.upper()`, which the template engine finds undefined where the name is no text. -/
def upperName (py : TextRuntime) (name : PyVal) : Gen String :=
  match name with
  | .str s => .ok (py.upper s)
  | _ => .error .undefinedError

structure CppHeader where
  kStx0 : List Char
  kStx1 : List Char
  kProtocolVersion : List Char
  kTypeCmd : List Char
  kTypeTele : List Char
  kNumThrusters : Int
  kFrameOverhead : Int
  kCmdPayloadSize : Int
  kTelePayloadSize : Int
  cmdPacket : List Member
  telemetryPacket : List Member
  offsets : List (String × Int)

def cppOffset (py : TextRuntime) (packet : String) (f : LayoutField) : Gen (String × Int) := do
  return ("k" ++ packet ++ (← camel py f.name) ++ "Offset", f.offset)

def renderCpp (py : TextRuntime) (schema : PyVal) : Gen CppHeader := do
  let ctx ← makeCtx py schema
  let kStx0 ← hexText 2 (.int ctx.stx0)
  let kStx1 ← hexText 2 (.int ctx.stx1)
  let kProtocolVersion ← hexText 2 ctx.version
  let kTypeCmd ← hexText 2 ctx.typeCmd
  let kTypeTele ← hexText 2 ctx.typeTele
  let cmdOffsets ← ctx.cmdFields.mapM (cppOffset py "CmdPacket")
  let teleOffsets ← ctx.teleFields.mapM (cppOffset py "TelemetryPacket")
  return {
    kStx0 := kStx0
    kStx1 := kStx1
    kProtocolVersion := kProtocolVersion
    kTypeCmd := kTypeCmd
    kTypeTele := kTypeTele
    kNumThrusters := ctx.numThrusters
    kFrameOverhead := ctx.frameOverhead
    kCmdPayloadSize := ctx.cmdSize
    kTelePayloadSize := ctx.teleSize
    cmdPacket := ctx.cmdFields.map member
    telemetryPacket := ctx.teleFields.map member
    offsets := cmdOffsets ++ teleOffsets }

/-- The C header; the two sizes asserted are those of `sizeof` of its two structs. -/
structure CHeader where
  ouStx0 : List Char
  ouStx1 : List Char
  ouProtocolVersion : List Char
  ouTypeCmd : List Char
  ouTypeTele : List Char
  ouNumThrusters : Int
  ouFrameOverhead : Int
  ouCmdPayloadSize : Int
  ouTelePayloadSize : Int
  offsets : List (String × Int)
  cmdPacket : List Member
  telemetryPacket : List Member
  assertedCmdSize : Int
  assertedTeleSize : Int

def cOffset (py : TextRuntime) (packet : String) (f : LayoutField) : Gen (String × Int) := do
  return ("OU_" ++ packet ++ "_" ++ (← upperName py f.name) ++ "_OFFSET", f.offset)

def renderC (py : TextRuntime) (schema : PyVal) : Gen CHeader := do
  let ctx ← makeCtx py schema
  let ouStx0 ← hexText 2 (.int ctx.stx0)
  let ouStx1 ← hexText 2 (.int ctx.stx1)
  let ouProtocolVersion ← hexText 2 ctx.version
  let ouTypeCmd ← hexText 2 ctx.typeCmd
  let ouTypeTele ← hexText 2 ctx.typeTele
  let cmdOffsets ← ctx.cmdFields.mapM (cOffset py "CMDPACKET")
  let teleOffsets ← ctx.teleFields.mapM (cOffset py "TELEMETRYPACKET")
  return {
    ouStx0 := ouStx0
    ouStx1 := ouStx1
    ouProtocolVersion := ouProtocolVersion
    ouTypeCmd := ouTypeCmd
    ouTypeTele := ouTypeTele
    ouNumThrusters := ctx.numThrusters
    ouFrameOverhead := ctx.frameOverhead
    ouCmdPayloadSize := ctx.cmdSize
    ouTelePayloadSize := ctx.teleSize
    offsets := cmdOffsets ++ teleOffsets
    cmdPacket := ctx.cmdFields.map member
    telemetryPacket := ctx.teleFields.map member
    assertedCmdSize := ctx.cmdSize
    assertedTeleSize := ctx.teleSize }

/-- `mode_values.items()`. -/
def modeItems (modeValues : PyVal) : Gen (List (PyVal × PyVal)) :=
  match modeValues with
  | .dict entries => .ok entries
  | _ => .error .undefinedError

def modeNotes : PyVal :=
  .dict [(.int 0, .str "手动遥控"), (.int 1, .str "自动控制"), (.int 2, .str "一键返航"),
    (.int 3, .str "悬停保持")]

structure ModeRow where
  name : PyVal
  val : PyVal
  notes : PyVal

def modeRow (entry : PyVal × PyVal) : Except PyError ModeRow :=
  if entry.2.hashable then do
    return ⟨entry.1, entry.2, ← modeNotes.get entry.2 (.str "")⟩
  else .error .typeError

def truthy (py : TextRuntime) : PyVal → Bool
  | .none => false
  | .bool b => b
  | .int n => n != 0
  | .float bits => py.floatTruth bits
  | .str s => s != ""
  | .list items => !items.isEmpty
  | .dict entries => !entries.isEmpty

structure DocRow where
  offset : Int
  name : PyVal
  lastIndex : Option Int
  type : Option ElemType
  count : Option Int
  unit : PyVal
  range : PyVal
  notes : PyVal

def docRow (py : TextRuntime) (f : LayoutField) : DocRow :=
  { offset := f.offset
    name := f.name
    lastIndex := if f.count > 1 then some (f.count - 1) else none
    type := elemType f.type
    count := if f.count > 1 then some f.count else none
    unit := if truthy py f.unit then f.unit else .str "\"\""
    range := f.range
    notes := f.notes }

structure Docs where
  knownAnswer : List Char
  modes : List ModeRow
  cmdSize : Int
  cmdRows : List DocRow
  teleSize : Int
  teleRows : List DocRow

/-- `ctx.frame.crc.known_answer`.  An undefined `crc` has no attributes; an undefined
`known_answer` is no number. -/
def knownAnswer (frame : PyVal) : Gen PyVal := do
  let crc ← frame.get (.str "crc") .none
  if !(← contains frame (.str "crc")) then throw .undefinedError
  match crc with
  | .dict entries => (PyVal.dict entries).get (.str "known_answer") .none
  | _ => return .none

def renderMd (py : TextRuntime) (schema : PyVal) : Gen Docs := do
  let ctx ← makeCtx py schema
  let known ← hexText 4 (← knownAnswer ctx.frame)
  let entries ← modeItems ctx.modeValues
  let modes ← (entries.mapM modeRow : Except PyError _)
  return {
    knownAnswer := known
    modes := modes
    cmdSize := ctx.cmdSize
    cmdRows := ctx.cmdFields.map (docRow py)
    teleSize := ctx.teleSize
    teleRows := ctx.teleFields.map (docRow py) }

def aboveOne (py : TextRuntime) : PyVal → Except PyError Bool
  | .bool _ => .ok false
  | .int n => .ok (n > 1)
  | .float bits => .ok (py.floatAboveOne bits)
  | _ => .error .typeError

structure MsgField where
  type : Option ElemType
  count : Option PyVal
  name : PyVal

/-- The line of a validated field. -/
def msgField (py : TextRuntime) (f : PyVal) : Except PyError MsgField := do
  let count ← f.get (.str "count") (.int 1)
  let many ← aboveOne py count
  let type ← f.getItem (.str "type")
  let name ← f.getItem (.str "name")
  return {
    type := elemType type
    count := if many then some count else none
    name := name }

structure MsgFile where
  modes : List (PyVal × PyVal)
  fields : List MsgField

def renderMsg (py : TextRuntime) (schema : PyVal) (frameName : String) : Gen MsgFile := do
  let ctx ← makeCtx py schema
  let frame ← frameOf schema frameName
  let fields ← (← frame.getItem (.str "fields")).items
  let modes ← modeItems ctx.modeValues
  let rows ← (fields.mapM (msgField py) : Except PyError _)
  return { modes := modes, fields := rows }

end RovSdk.CodeGenerator
