import Mathlib.Logic.Function.Iterate
import RovSdk.SchemaLayout

namespace RovSdk.GoldenGenerator

open RovSdk.PythonValues
open RovSdk.SchemaLayout

def crcBit (crc : Nat) : Nat :=
  if crc &&& 1 ≠ 0 then (crc >>> 1) ^^^ 0xA001 else crc >>> 1

def crcByte (crc : Nat) (byte : UInt8) : Nat := crcBit^[8] (crc ^^^ byte.toNat)

def crc16 (data : List UInt8) : Nat := data.foldl crcByte 0xFFFF &&& 0xFFFF

/-- `struct.pack("<f", v)` for a packed pattern. -/
def packF32 (bits : UInt32) : List UInt8 :=
  List.ofFn fun i : Fin 4 => (bits >>> UInt32.ofNat (8 * i)).toUInt8

/-- One turn of the loop of `build_payload`: the bytes it appends. -/
def packField (py : Runtime) (values : PyVal) (f : LayoutField) :
    Except PyError (List UInt8) :=
  if f.type.sameKey (.str "u8") then do
    let raw ← values.getItem f.name
    if f.count > 1 then
      let items ← raw.items
      if (items.length : Int) ≠ f.count then
        throw (.valueError [.str "u8 array ", f.name, .str " expects ", .int f.count,
          .str " values, got ", .int items.length])
      items.mapM PyVal.packU8
    else
      let n ← py.int raw
      return [UInt8.ofNat (n % 256).toNat]
  else if f.type.sameKey (.str "f32") then do
    let raw ← values.getItem f.name
    if f.count > 1 then
      let items ← raw.items
      if (items.length : Int) ≠ f.count then
        throw (.valueError [.str "f32 array ", f.name, .str " expects ", .int f.count,
          .str " values, got ", .int items.length])
      let words ← items.mapM py.packF32
      return words.flatMap packF32
    else
      let bits ← py.f32 raw
      return packF32 bits
  else throw (.valueError [.str "unknown type ", f.type])

def buildPayload (py : Runtime) (fieldsLayout : List LayoutField) (values : PyVal) :
    Except PyError (List UInt8) := do
  let parts ← fieldsLayout.mapM (packField py values)
  return parts.flatten

/-- `build_frame`; its `version` argument defaults to `0x02`. -/
def buildFrame (payload : List UInt8) (frameType : PyVal) (version : PyVal := .int 0x02) :
    Except PyError (List UInt8) := do
  let stx0 := PyVal.int 0xAA
  let stx1 := PyVal.int 0x55
  let length := PyVal.int payload.length
  let header ← [stx0, stx1, version, length, frameType].mapM PyVal.toByte
  let crcHead ← [version, length, frameType].mapM PyVal.toByte
  let crc := crc16 (crcHead ++ payload)
  return header ++ payload ++ [UInt8.ofNat (crc &&& 0xFF), UInt8.ofNat ((crc >>> 8) &&& 0xFF)]

structure GoldenCase where
  name : String
  arrayName : String
  frameType : PyVal
  payloadSize : Nat
  totalLength : Nat
  notes : String
  inputs : PyVal
  expectedFrame : List UInt8

def caseFromInputs (py : Runtime) (schema : PyVal) (frameName : String) (inputs : PyVal)
    (arrayName notes : String) : Except PyError GoldenCase := do
  let frame ← (← schema.getItem (.str "frames")).getItem (.str frameName)
  let fields ← computeLayout py (← (← frame.getItem (.str "fields")).items)
  let payload ← buildPayload py fields inputs
  let frameType ← frame.getItem (.str "type")
  let expected ← buildFrame payload frameType
  return {
    name := frameName
    arrayName := arrayName
    frameType := frameType
    payloadSize := payload.length
    totalLength := expected.length
    notes := notes
    inputs := inputs
    expectedFrame := expected }

end RovSdk.GoldenGenerator
