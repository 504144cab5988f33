import RovSdk.ProtocolBytes

namespace RovSdk.Packets

open RovSdk.ProtocolBytes

structure CmdPacket where
  mode : UInt8 := 0
  armed : UInt8 := 0
  reserved : Vector UInt8 2 := .replicate 2 0
  surge : UInt32 := 0
  sway : UInt32 := 0
  heave : UInt32 := 0
  yaw : UInt32 := 0
  targetDepth : UInt32 := 0
  targetHeading : UInt32 := 0
  targetNorth : UInt32 := 0
  targetEast : UInt32 := 0
  reservedTail : Vector UInt8 16 := .replicate 16 0
  deriving DecidableEq, Repr

structure TelemetryPacket where
  roll : UInt32 := 0
  pitch : UInt32 := 0
  heading : UInt32 := 0
  yawRate : UInt32 := 0
  depth : UInt32 := 0
  altitude : UInt32 := 0
  north : UInt32 := 0
  east : UInt32 := 0
  vn : UInt32 := 0
  ve : UInt32 := 0
  vd : UInt32 := 0
  voltage : UInt32 := 0
  current : UInt32 := 0
  percent : UInt32 := 0
  temperature : UInt32 := 0
  waterTemp : UInt32 := 0
  salinity : UInt32 := 0
  pressureBar : UInt32 := 0
  cableTension : UInt32 := 0
  thr : Vector UInt32 kNumThrusters := .replicate kNumThrusters 0
  leak : UInt8 := 0
  armed : UInt8 := 0
  mode : UInt8 := 0
  reserved : UInt8 := 0
  reservedTail : Vector UInt8 16 := .replicate 16 0
  deriving DecidableEq, Repr

def encodeCmd (cmd : CmdPacket) : List UInt8 :=
  let payload := putU8 [] cmd.mode
  let payload := putU8 payload cmd.armed
  let payload := putBytes payload cmd.reserved.toList
  let payload := putF32LE payload cmd.surge
  let payload := putF32LE payload cmd.sway
  let payload := putF32LE payload cmd.heave
  let payload := putF32LE payload cmd.yaw
  let payload := putF32LE payload cmd.targetDepth
  let payload := putF32LE payload cmd.targetHeading
  let payload := putF32LE payload cmd.targetNorth
  let payload := putF32LE payload cmd.targetEast
  let payload := putBytes payload cmd.reservedTail.toList
  encodeFrame payload kTypeCmd

def encodeTele (tele : TelemetryPacket) : List UInt8 :=
  let payload := putF32LE [] tele.roll
  let payload := putF32LE payload tele.pitch
  let payload := putF32LE payload tele.heading
  let payload := putF32LE payload tele.yawRate
  let payload := putF32LE payload tele.depth
  let payload := putF32LE payload tele.altitude
  let payload := putF32LE payload tele.north
  let payload := putF32LE payload tele.east
  let payload := putF32LE payload tele.vn
  let payload := putF32LE payload tele.ve
  let payload := putF32LE payload tele.vd
  let payload := putF32LE payload tele.voltage
  let payload := putF32LE payload tele.current
  let payload := putF32LE payload tele.percent
  let payload := putF32LE payload tele.temperature
  let payload := putF32LE payload tele.waterTemp
  let payload := putF32LE payload tele.salinity
  let payload := putF32LE payload tele.pressureBar
  let payload := putF32LE payload tele.cableTension
  let payload := tele.thr.toList.foldl putF32LE payload
  let payload := putU8 payload tele.leak
  let payload := putU8 payload tele.armed
  let payload := putU8 payload tele.mode
  let payload := putU8 payload tele.reserved
  let payload := putBytes payload tele.reservedTail.toList
  encodeFrame payload kTypeTele

def readCmd (frame : List UInt8) : CmdPacket :=
  { mode := getU8 frame (5 + 0)
    armed := getU8 frame (5 + 1)
    reserved := #v[getU8 frame (5 + 2), getU8 frame (5 + 3)]
    surge := getF32LE frame (5 + 4)
    sway := getF32LE frame (5 + 8)
    heave := getF32LE frame (5 + 12)
    yaw := getF32LE frame (5 + 16)
    targetDepth := getF32LE frame (5 + 20)
    targetHeading := getF32LE frame (5 + 24)
    targetNorth := getF32LE frame (5 + 28)
    targetEast := getF32LE frame (5 + 32)
    reservedTail := Vector.ofFn fun i => getU8 frame (5 + 36 + i) }

def readTele (frame : List UInt8) : TelemetryPacket :=
  { roll := getF32LE frame (5 + 0)
    pitch := getF32LE frame (5 + 4)
    heading := getF32LE frame (5 + 8)
    yawRate := getF32LE frame (5 + 12)
    depth := getF32LE frame (5 + 16)
    altitude := getF32LE frame (5 + 20)
    north := getF32LE frame (5 + 24)
    east := getF32LE frame (5 + 28)
    vn := getF32LE frame (5 + 32)
    ve := getF32LE frame (5 + 36)
    vd := getF32LE frame (5 + 40)
    voltage := getF32LE frame (5 + 44)
    current := getF32LE frame (5 + 48)
    percent := getF32LE frame (5 + 52)
    temperature := getF32LE frame (5 + 56)
    waterTemp := getF32LE frame (5 + 60)
    salinity := getF32LE frame (5 + 64)
    pressureBar := getF32LE frame (5 + 68)
    cableTension := getF32LE frame (5 + 72)
    thr := Vector.ofFn fun i => getF32LE frame (5 + 76 + 4 * i)
    leak := getU8 frame (5 + 108)
    armed := getU8 frame (5 + 109)
    mode := getU8 frame (5 + 110)
    reserved := getU8 frame (5 + 111)
    reservedTail := Vector.ofFn fun i => getU8 frame (5 + 112 + i) }

def decodeCmd (frame : List UInt8) : Option CmdPacket :=
  if !validateFrameHeader frame kTypeCmd kCmdPayloadSize then none
  else some (readCmd frame)

def decodeTele (frame : List UInt8) : Option TelemetryPacket :=
  if !validateFrameHeader frame kTypeTele kTelePayloadSize then none
  else some (readTele frame)

/-- The packet types that `packet_traits` and `decode` are specialised to. -/
inductive PacketType where
  | cmd
  | tele
  deriving DecidableEq, Repr

namespace PacketType

abbrev Pkt : PacketType → Type
  | cmd => CmdPacket
  | tele => TelemetryPacket

/-- `packet_traits<Pkt>::type`. -/
def type : PacketType → UInt8
  | cmd => kTypeCmd
  | tele => kTypeTele

def payloadSize : PacketType → Nat
  | cmd => kCmdPayloadSize
  | tele => kTelePayloadSize

def encode : (k : PacketType) → k.Pkt → List UInt8
  | cmd => encodeCmd
  | tele => encodeTele

def decode : (k : PacketType) → List UInt8 → Option k.Pkt
  | cmd => decodeCmd
  | tele => decodeTele

end PacketType

abbrev Packet := (k : PacketType) × k.Pkt

def Packet.encode (p : Packet) : List UInt8 := p.1.encode p.2

end RovSdk.Packets
