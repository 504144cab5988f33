import RovSdk.GoldenHeader

namespace RovSdk.HeaderText

open RovSdk.PythonValues
open RovSdk.CodeGenerator
open RovSdk.GoldenHeader (autoHeader)

def intText (n : Int) : List Char :=
  (if n < 0 then ['-'] else []) ++ Nat.toDigits 10 n.natAbs

/-- `CPP_TYPE` and `C_TYPE`; a type that is not in the table prints as nothing. -/
def cType : Option ElemType → List Char
  | some .u8 => "uint8_t".toList
  | some .f32 => "float".toList
  | none => []

/-- The text of a template, whose last line end the template engine drops. -/
def rendered (lines : List (List Char)) : List Char := (lines.flatMap (· ++ ['\n'])).dropLast

def arraySize : Option Int → List Char
  | some count => "[".toList ++ intText count ++ "]".toList
  | none => []

variable (str : PyVal → List Char)

def declarator (m : Member) : List Char :=
  "    ".toList ++ cType m.type ++ " ".toList ++ str m.name ++ arraySize m.count

def cppMemberLine (m : Member) : List Char :=
  declarator str m ++ "\x7b\x7d; // ".toList ++ str m.notes

def cppConstantLine (type name : String) (value comment : List Char) : List Char :=
  "inline constexpr ".toList ++ type.toList ++ " ".toList ++ name.toList ++ " = ".toList ++
    value ++ ";".toList ++ comment

def cppOffsetLine (m : Member) (offset : String × Int) : List Char :=
  cppConstantLine "size_t" offset.1 (intText offset.2) (" // ".toList ++ str m.name)

def cppConstantLines (h : CppHeader) : List (List Char) :=
  [cppConstantLine "uint8_t" "kStx0" h.kStx0 "                 // 帧头第一字节".toList,
    cppConstantLine "uint8_t" "kStx1" h.kStx1 "                 // 帧头第二字节".toList,
    cppConstantLine "uint8_t" "kProtocolVersion" h.kProtocolVersion "  // 协议版本".toList,
    cppConstantLine "uint8_t" "kTypeCmd" h.kTypeCmd "          // 控制指令（主控 -> 从控）".toList,
    cppConstantLine "uint8_t" "kTypeTele" h.kTypeTele "       // 遥测（从控 -> 主控）".toList,
    cppConstantLine "size_t" "kNumThrusters" (intText h.kNumThrusters)
      "          // 推进器数量".toList,
    cppConstantLine "size_t" "kFrameOverhead" (intText h.kFrameOverhead)
      "          // 帧固定开销 = STX(2)+ver(1)+len(1)+type(1)+crc(2)".toList,
    cppConstantLine "size_t" "kCmdPayloadSize" (intText h.kCmdPayloadSize)
      "               // 控制指令载荷字节数".toList,
    cppConstantLine "size_t" "kTelePayloadSize" (intText h.kTelePayloadSize)
      "             // 遥测载荷字节数".toList]

def cppLines (h : CppHeader) : List (List Char) :=
  ["// ".toList ++ autoHeader.toList,
    [],
    "#pragma once".toList,
    [],
    "#include <cstddef>".toList,
    "#include <cstdint>".toList,
    "#include <optional>".toList,
    "#include <span>".toList,
    "#include <vector>".toList,
    [],
    "namespace ou \x7b".toList,
    [],
    "// 帧常量（v0.2.0 固定格式：AA 55 | ver | len | type | payload | crc16）".toList] ++
  cppConstantLines h ++
  [[],
    "// 控制指令载荷（主控 -> 从控）".toList,
    "struct CmdPacket \x7b".toList] ++
  h.cmdPacket.map (cppMemberLine str) ++
  [[],
    "    friend bool operator==(const CmdPacket&, const CmdPacket&) = default;".toList,
    "\x7d;".toList,
    [],
    "// 遥测载荷（从控 -> 主控）".toList,
    "struct TelemetryPacket \x7b".toList] ++
  h.telemetryPacket.map (cppMemberLine str) ++
  [[],
    "    friend bool operator==(const TelemetryPacket&, const TelemetryPacket&) = default;".toList,
    "\x7d;".toList,
    [],
    "// 字段偏移常量（从字段顺序+类型尺寸推导，单位字节）".toList] ++
  List.zipWith (cppOffsetLine str) (h.cmdPacket ++ h.telemetryPacket) h.offsets ++
  [[],
    "// 组帧/解码函数声明（实现在 T4 手写）".toList,
    "std::vector<uint8_t> encodeCmd(const CmdPacket& cmd);".toList,
    "std::vector<uint8_t> encodeTele(const TelemetryPacket& tele);".toList,
    "std::optional<CmdPacket> decodeCmd(std::span<const uint8_t> frame);".toList,
    "std::optional<TelemetryPacket> decodeTele(std::span<const uint8_t> frame);".toList,
    [],
    "\x7d // namespace ou".toList]

def cMemberLine (m : Member) : List Char :=
  declarator str m ++ "; /* ".toList ++ str m.notes ++ " */".toList

def cConstantLine (name : String) (value : List Char) : List Char :=
  "#define ".toList ++ name.toList ++ " ".toList ++ value

def cAssertLine (packet : String) (size : Int) : List Char :=
  "_Static_assert(sizeof(".toList ++ packet.toList ++ ") == ".toList ++ intText size ++
    ", \"".toList ++ packet.toList ++ " size mismatch\");".toList

def cConstantLines (h : CHeader) : List (List Char) :=
  [cConstantLine "OU_STX0" h.ouStx0,
    cConstantLine "OU_STX1" h.ouStx1,
    cConstantLine "OU_PROTOCOL_VERSION" h.ouProtocolVersion,
    cConstantLine "OU_TYPE_CMD" h.ouTypeCmd,
    cConstantLine "OU_TYPE_TELE" h.ouTypeTele,
    cConstantLine "OU_NUM_THRUSTERS" (intText h.ouNumThrusters),
    cConstantLine "OU_FRAME_OVERHEAD" (intText h.ouFrameOverhead),
    cConstantLine "OU_CMD_PAYLOAD_SIZE" (intText h.ouCmdPayloadSize),
    cConstantLine "OU_TELE_PAYLOAD_SIZE" (intText h.ouTelePayloadSize)]

def cLines (h : CHeader) : List (List Char) :=
  ["/* ".toList ++ autoHeader.toList ++ " */".toList,
    "#ifndef OU_GENERATED_PROTOCOL_H".toList,
    "#define OU_GENERATED_PROTOCOL_H".toList,
    [],
    "#include <stdint.h>".toList,
    [],
    "#ifdef __cplusplus".toList,
    "extern \"C\" \x7b".toList,
    "#endif".toList,
    [],
    "/* 帧常量 */".toList] ++
  cConstantLines h ++
  [[],
    "/* 字段偏移宏 */".toList] ++
  h.offsets.map (fun offset => cConstantLine offset.1 (intText offset.2)) ++
  [[],
    "/* 控制指令载荷（主控 -> 从控） */".toList,
    "typedef struct __attribute__((packed)) \x7b".toList] ++
  h.cmdPacket.map (cMemberLine str) ++
  ["\x7d CmdPacket;".toList,
    [],
    "/* 遥测载荷（从控 -> 主控） */".toList,
    "typedef struct __attribute__((packed)) \x7b".toList] ++
  h.telemetryPacket.map (cMemberLine str) ++
  ["\x7d TelemetryPacket;".toList,
    []] ++
  [cAssertLine "CmdPacket" h.assertedCmdSize,
    cAssertLine "TelemetryPacket" h.assertedTeleSize] ++
  [[],
    "#ifdef __cplusplus".toList,
    "\x7d".toList,
    "#endif".toList,
    [],
    "#endif /* OU_GENERATED_PROTOCOL_H */".toList]

def cppText (h : CppHeader) : List Char := rendered (cppLines str h)

def cText (h : CHeader) : List Char := rendered (cLines str h)

end RovSdk.HeaderText
