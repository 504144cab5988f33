import Mathlib.Data.Int.Basic
import RovSdk.Packets
import RovSdk.StreamParser

/-!
`FrameLink` and its subclasses.  A link runs against readings of `steady_clock` and
results of `recv_bytes`, both taken in order; it records how many readings it has
taken and with which timeouts it has called its channel.  Durations are signed
64-bit counts, nanoseconds of the clock and milliseconds of the timeouts, and wrap
as the hardware's do.
-/

namespace RovSdk.FrameLink

open RovSdk.ListSlices
open RovSdk.ProtocolBytes
open RovSdk.StreamParser
open RovSdk.Packets

structure Env where
  now : Nat → Int64
  recvBytes : Nat → Option (List UInt8)

structure Link where
  parser : FrameParser := {}
  ticks : Nat := 0
  timeouts : List Int64 := []
  deriving DecidableEq, Repr

def Link.tick (l : Link) : Link := { l with ticks := l.ticks + 1 }

def Link.ask (l : Link) (timeout : Int64) : Link :=
  { l with timeouts := l.timeouts ++ [timeout] }

def Link.feed (l : Link) (bytes : List UInt8) : Link :=
  { l with parser := l.parser.feed bytes }

/-- `steady_clock::now() + timeout`. -/
def deadlineAfter (now timeout : Int64) : Int64 := now + timeout * 1000000

/-- `duration_cast<milliseconds>(deadline - now)`, which truncates. -/
def remainingMillis (deadline now : Int64) : Int64 := (deadline - now) / 1000000

/-- A call that has returned, or one still in its loop when the fuel is used up. -/
inductive Outcome (α : Type) where
  | running
  | returned (result : Option α)
  deriving DecidableEq, Repr

/-- The loop of `FrameLink::recv_frame`, for at most `fuel` turns. -/
def recvFrameLoop (env : Env) (deadline : Int64) :
    Nat → Link → Outcome (List UInt8) × Link
  | 0, l => (.running, l)
  | fuel + 1, l =>
      match l.parser.nextFrame with
      | (some frame, p) => (.returned (some frame), { l with parser := p })
      | (none, p) =>
          let now := env.now l.ticks
          let l := { l with parser := p }.tick
          if now ≥ deadline then (.returned none, l)
          else
            let remaining := remainingMillis deadline now
            if remaining ≤ 0 then (.returned none, l)
            else
              match env.recvBytes l.timeouts.length with
              | none => (.returned none, l.ask remaining)
              | some bytes =>
                  recvFrameLoop env deadline fuel ((l.ask remaining).feed bytes)

def recvFrame (env : Env) (fuel : Nat) (timeout : Int64) (l : Link) :
    Outcome (List UInt8) × Link :=
  if timeout ≤ 0 then (.returned none, l)
  else recvFrameLoop env (deadlineAfter (env.now l.ticks) timeout) fuel l.tick

/-- The checks of `UdpFrameLink::recv_frame` on a datagram. -/
def checkDatagram (data : List UInt8) : Option (List UInt8) :=
  if data.length < kFrameOverhead then none
  else
    let len := getU8 data 3
    let total := kFrameOverhead + len.toNat
    if data.length ≠ total then none
    else if getU8 data 0 ≠ kStx0 ∨ getU8 data 1 ≠ kStx1 ∨ getU8 data 2 ≠ kProtocolVersion
      then none
    else
      let crc := crc16 (slice data 2 (3 + len.toNat))
      let got := getU16LE data (total - 2)
      if crc ≠ got then none else some data

def udpRecvFrame (env : Env) (timeout : Int64) (l : Link) :
    Outcome (List UInt8) × Link :=
  if timeout ≤ 0 then (.returned none, l)
  else
    match env.recvBytes l.timeouts.length with
    | none => (.returned none, l.ask timeout)
    | some data => (.returned (checkDatagram data), l.ask timeout)

/-- The two subclasses; `SerialFrameLink` inherits `recv_frame`. -/
inductive LinkClass where
  | serial
  | udp
  deriving DecidableEq, Repr

def LinkClass.recvFrame (env : Env) (fuel : Nat) :
    LinkClass → Int64 → Link → Outcome (List UInt8) × Link
  | serial => RovSdk.FrameLink.recvFrame env fuel
  | udp => udpRecvFrame env

/-- The loop of `recv_frame_as<Pkt>` around a virtual `recv_frame`. -/
def recvFrameAsLoop (recv : Int64 → Link → Outcome (List UInt8) × Link) (env : Env)
    (k : PacketType) (deadline : Int64) : Nat → Link → Outcome k.Pkt × Link
  | 0, l => (.running, l)
  | fuel + 1, l =>
      let now := env.now l.ticks
      let l := l.tick
      if now ≥ deadline then (.returned none, l)
      else
        let remaining := remainingMillis deadline now
        if remaining ≤ 0 then (.returned none, l)
        else
          match recv remaining l with
          | (.running, l) => (.running, l)
          | (.returned none, l) => (.returned none, l)
          | (.returned (some frame), l) =>
              if frame.length ≥ kFrameOverhead + 1 ∧ getU8 frame 4 = k.type then
                (.returned (k.decode frame), l)
              else recvFrameAsLoop recv env k deadline fuel l

def recvFrameAs (env : Env) (fuel : Nat) (c : LinkClass) (k : PacketType)
    (timeout : Int64) (l : Link) : Outcome k.Pkt × Link :=
  if timeout ≤ 0 then (.returned none, l)
  else
    recvFrameAsLoop (c.recvFrame env fuel) env k
      (deadlineAfter (env.now l.ticks) timeout) fuel l.tick

inductive RecvCall where
  | recvFrame (timeout : Int64)
  | recvFrameAs (k : PacketType) (timeout : Int64)
  deriving DecidableEq, Repr

inductive Reply where
  | frame (r : Outcome (List UInt8))
  | packet (k : PacketType) (r : Outcome k.Pkt)

def Outcome.isRunning {α : Type} : Outcome α → Bool
  | running => true
  | returned _ => false

def Reply.isRunning : Reply → Bool
  | frame r => r.isRunning
  | packet _ r => r.isRunning

def Link.call (env : Env) (c : LinkClass) (l : Link) (fuel : Nat) :
    RecvCall → Reply × Link
  | .recvFrame timeout =>
      let r := c.recvFrame env fuel timeout l
      (.frame r.1, r.2)
  | .recvFrameAs k timeout =>
      let r := recvFrameAs env fuel c k timeout l
      (.packet k r.1, r.2)

/-- Receive calls one after another, each with its fuel, up to one that does not return:
the calls made with their replies, and the link they leave. -/
def run (env : Env) (c : LinkClass) :
    Link → List (Nat × RecvCall) → List (RecvCall × Reply) × Link
  | l, [] => ([], l)
  | l, (fuel, call) :: calls =>
      let r := l.call env c fuel call
      if r.1.isRunning then ([(call, r.1)], r.2)
      else
        let rest := run env c r.2 calls
        ((call, r.1) :: rest.1, rest.2)

end RovSdk.FrameLink
