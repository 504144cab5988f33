import RovSdk.PythonValues

namespace RovSdk.ProtocolSchema

open RovSdk.PythonValues

structure FieldEntry where
  name : String
  type : String
  unit : String
  range : PyVal
  notes : String
  count : Option Nat

/-- The mapping that the YAML loader builds for a field. -/
def FieldEntry.toPy (e : FieldEntry) : PyVal :=
  .dict ([(.str "name", .str e.name), (.str "type", .str e.type), (.str "unit", .str e.unit),
    (.str "range", e.range), (.str "notes", .str e.notes)] ++
    e.count.toList.map fun n => (.str "count", .int n))

def intRange (lo hi : Int) : PyVal := .list [.int lo, .int hi]

def f32Range (lo hi : UInt32) : PyVal := .list [.float lo, .float hi]

def modeRange : PyVal :=
  .dict [(.int 0, .str "MANUAL"), (.int 1, .str "AUTO"), (.int 2, .str "RETURN"),
    (.int 3, .str "HOLD")]

def cmdFields : List FieldEntry :=
  [⟨"mode", "u8", "", modeRange, "运行模式", none⟩,
    ⟨"armed", "u8", "", intRange 0 1, "解锁标志，1=armed 输出推进器，0=停机", none⟩,
    ⟨"reserved", "u8", "", intRange 0 0, "保留，发送方清零，接收方忽略", some 2⟩,
    ⟨"surge", "f32", "", f32Range 0xBF800000 0x3F800000, "前(+) / 后(-)", none⟩,
    ⟨"sway", "f32", "", f32Range 0xBF800000 0x3F800000, "右平移(+) / 左平移(-)", none⟩,
    ⟨"heave", "f32", "", f32Range 0xBF800000 0x3F800000, "上浮(+) / 下潜(-)", none⟩,
    ⟨"yaw", "f32", "", f32Range 0xBF800000 0x3F800000, "右转(+) / 左转(-)", none⟩,
    ⟨"target_depth", "f32", "m", f32Range 0x00000000 0x43960000, "目标深度", none⟩,
    ⟨"target_heading", "f32", "deg", f32Range 0x00000000 0x43B40000, "目标航向", none⟩,
    ⟨"target_north", "f32", "m", f32Range 0xC61C4000 0x461C4000,
      "v2, firmware v1 ignores（目标北向位移，寻迹/返航用）", none⟩,
    ⟨"target_east", "f32", "m", f32Range 0xC61C4000 0x461C4000,
      "v2, firmware v1 ignores（目标东向位移，寻迹/返航用）", none⟩,
    ⟨"reserved_tail", "u8", "", intRange 0 0, "扩展预留区（云台/机械臂/照明等后置），发送方清零，接收方忽略", some 16⟩]

def teleFields : List FieldEntry :=
  [⟨"roll", "f32", "deg", f32Range 0xC3340000 0x43340000, "横滚角", none⟩,
    ⟨"pitch", "f32", "deg", f32Range 0xC2B40000 0x42B40000, "俯仰角", none⟩,
    ⟨"heading", "f32", "deg", f32Range 0x00000000 0x43B40000, "航向角", none⟩,
    ⟨"yaw_rate", "f32", "deg/s", f32Range 0xC3340000 0x43340000, "偏航角速度", none⟩,
    ⟨"depth", "f32", "m", f32Range 0x00000000 0x43960000, "水深", none⟩,
    ⟨"altitude", "f32", "m", f32Range 0x00000000 0x42C80000, "距底高度", none⟩,
    ⟨"north", "f32", "m", f32Range 0xC61C4000 0x461C4000, "相对原点北向位移", none⟩,
    ⟨"east", "f32", "m", f32Range 0xC61C4000 0x461C4000, "相对原点东向位移", none⟩,
    ⟨"vn", "f32", "m/s", f32Range 0xC1200000 0x41200000, "北向速度", none⟩,
    ⟨"ve", "f32", "m/s", f32Range 0xC1200000 0x41200000, "东向速度", none⟩,
    ⟨"vd", "f32", "m/s", f32Range 0xC1200000 0x41200000, "下潜速度（向下为正）", none⟩,
    ⟨"voltage", "f32", "V", f32Range 0x00000000 0x42700000, "电池电压", none⟩,
    ⟨"current", "f32", "A", f32Range 0x00000000 0x42C80000, "电池电流", none⟩,
    ⟨"percent", "f32", "%", f32Range 0x00000000 0x42C80000, "电池电量百分比", none⟩,
    ⟨"temperature", "f32", "°C", f32Range 0xC1200000 0x42700000, "电池/舱内温度", none⟩,
    ⟨"water_temp", "f32", "°C", f32Range 0xC0A00000 0x42340000, "水温", none⟩,
    ⟨"salinity", "f32", "PSU", f32Range 0x00000000 0x42340000, "盐度", none⟩,
    ⟨"pressure_bar", "f32", "bar", f32Range 0x00000000 0x42200000, "水压", none⟩,
    ⟨"cable_tension", "f32", "N", f32Range 0x00000000 0x447A0000, "缆绳张力", none⟩,
    ⟨"thr", "f32", "%", f32Range 0xBF800000 0x3F800000, "8 路推进器输出百分比", some 8⟩,
    ⟨"leak", "u8", "", intRange 0 1, "漏水检测，1=报警", none⟩,
    ⟨"armed", "u8", "", intRange 0 1, "当前 armed 状态", none⟩,
    ⟨"mode", "u8", "", modeRange, "当前运行模式", none⟩,
    ⟨"reserved", "u8", "", intRange 0 0, "保留，发送方清零，接收方忽略", some 1⟩,
    ⟨"reserved_tail", "u8", "", intRange 0 0, "扩展预留区（云台/机械臂/照明等后置），发送方清零，接收方忽略", some 16⟩]

/-- The `kCmdPacket…Offset` constants of the generated header, by field. -/
def kCmdPacketOffsets : List (String × Nat) :=
  [("mode", 0), ("armed", 1), ("reserved", 2), ("surge", 4), ("sway", 8), ("heave", 12),
    ("yaw", 16), ("target_depth", 20), ("target_heading", 24), ("target_north", 28),
    ("target_east", 32), ("reserved_tail", 36)]

def kTelemetryPacketOffsets : List (String × Nat) :=
  [("roll", 0), ("pitch", 4), ("heading", 8), ("yaw_rate", 12), ("depth", 16),
    ("altitude", 20), ("north", 24), ("east", 28), ("vn", 32), ("ve", 36), ("vd", 40),
    ("voltage", 44), ("current", 48), ("percent", 52), ("temperature", 56),
    ("water_temp", 60), ("salinity", 64), ("pressure_bar", 68), ("cable_tension", 72),
    ("thr", 76), ("leak", 108), ("armed", 109), ("mode", 110), ("reserved", 111),
    ("reserved_tail", 112)]

def cmdType : PyVal := .int 0x01

def teleType : PyVal := .int 0x02

/-- The mapping of the whole schema, for a version and the fields of the two frames. -/
def schemaWith (version : Int) (cmd tele : List FieldEntry) : PyVal :=
  .dict [(.str "version", .int version),
    (.str "frame", .dict [(.str "stx", .int 0xAA55), (.str "version", .int version),
      (.str "len_includes", .str "payload only"), (.str "endian", .str "little"),
      (.str "float", .str "float32"),
      (.str "crc", .dict [(.str "poly", .int 0xA001), (.str "init", .int 0xFFFF),
        (.str "coverage", .str "from version byte, length 3 + len bytes"),
        (.str "known_answer", .int 0x4B37)])]),
    (.str "types", .dict [(.str "u8", .str "uint8"), (.str "f32", .str "float32")]),
    (.str "enums", .dict [(.str "Mode", .dict [(.str "type", .str "u8"),
      (.str "values", .dict [(.str "MANUAL", .int 0), (.str "AUTO", .int 1),
        (.str "RETURN", .int 2), (.str "HOLD", .int 3)])])]),
    (.str "frames", .dict [
      (.str "CmdPacket", .dict [(.str "type", cmdType), (.str "direction", .str "down"),
        (.str "notes", .str "控制指令帧，payload 52 字节"),
        (.str "fields", .list (cmd.map FieldEntry.toPy))]),
      (.str "TelemetryPacket", .dict [(.str "type", teleType), (.str "direction", .str "up"),
        (.str "notes", .str "遥测帧，payload 128 字节"),
        (.str "fields", .list (tele.map FieldEntry.toPy))])])]

def protocolYaml : PyVal := schemaWith 2 cmdFields teleFields

end RovSdk.ProtocolSchema
