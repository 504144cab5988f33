import RovSdk.SerialChannel
import RovSdk.StreamDelivery

namespace RovSdk.SerialLine

open RovSdk.Packets
open RovSdk.SerialChannel
open RovSdk.StreamDelivery

/-- `FrameLink::send_frame`, which passes the frame to the channel. -/
def sendFrame (channel : Impl) (frame : List UInt8) (write : List UInt8 → Int) :
    Bool × Option (List UInt8) :=
  channel.send frame write

def taken (channel : Impl) (frame : List UInt8) (write : List UInt8 → Int) : List UInt8 :=
  match (sendFrame channel frame write).2 with
  | none => []
  | some data => data.take (write data).toNat

inductive LineEvent where
  | sendFrame (p : Packet) (write : List UInt8 → Int)
  | noise (bytes : List UInt8)
  | recvBytes (timeout : Int64) (outcome : RecvOutcome)

def LineEvent.put (writer : Impl) : LineEvent → List UInt8
  | sendFrame p write => taken writer p.encode write
  | noise bytes => bytes
  | recvBytes _ _ => []

/-- The bytes in transit, and the results of the reader's calls. -/
structure Line where
  transit : List UInt8 := []
  heard : List (Option (List UInt8)) := []

def Line.received (line : Line) : List UInt8 := (line.heard.filterMap id).flatten

inductive Run (writer reader : Impl) : List LineEvent → Line → Prop
  | start : Run writer reader [] {}
  | sendFrame {events : List LineEvent} {line : Line} (p : Packet)
      (write : List UInt8 → Int) : Run writer reader events line →
      Run writer reader (events ++ [.sendFrame p write])
        { line with transit := line.transit ++ taken writer p.encode write }
  | noise {events : List LineEvent} {line : Line} (bytes : List UInt8) :
      Run writer reader events line →
      Run writer reader (events ++ [.noise bytes])
        { line with transit := line.transit ++ bytes }
  | silence {events : List LineEvent} {line : Line} (timeout : Int64)
      (outcome : RecvOutcome) : Run writer reader events line →
      reader.recvBytes timeout outcome = none →
      Run writer reader (events ++ [.recvBytes timeout outcome])
        { line with heard := line.heard ++ [none] }
  | arrival {events : List LineEvent} {line : Line} {timeout : Int64}
      {outcome : RecvOutcome} {bytes rest : List UInt8} : Run writer reader events line →
      reader.recvBytes timeout outcome = some bytes → line.transit = bytes ++ rest →
      Run writer reader (events ++ [.recvBytes timeout outcome])
        { transit := rest, heard := line.heard ++ [some bytes] }

variable {writer reader : Impl} {events : List LineEvent} {line : Line}

/-- What has been read and what is in transit is what has been put on the line. -/
theorem received_append_transit (h : Run writer reader events line) :
    line.received ++ line.transit = events.flatMap (LineEvent.put writer) := by
  induction h with
  | start => rfl
  | sendFrame p write _ ih =>
      rw [List.flatMap_append, ← ih, ← List.append_assoc, List.flatMap_singleton]
      rfl
  | noise bytes _ ih =>
      rw [List.flatMap_append, ← ih, ← List.append_assoc, List.flatMap_singleton]
      rfl
  | silence timeout outcome _ _ ih =>
      rw [List.flatMap_append, ← ih, List.flatMap_singleton]
      simp [Line.received, LineEvent.put]
  | arrival _ _ htransit ih =>
      rw [List.flatMap_append, ← ih, htransit, List.flatMap_singleton]
      simp [Line.received, LineEvent.put]

def sentPackets (writer : Impl) (events : List LineEvent) : List Packet :=
  events.flatMap fun
    | .sendFrame p write => if (sendFrame writer p.encode write).1 then [p] else []
    | _ => []

/-- The noise before the first frame on the line, and each frame with the noise behind it. -/
def layout (writer : Impl) : List LineEvent → List UInt8 × List (Packet × List UInt8)
  | [] => ([], [])
  | .sendFrame p write :: events =>
      let rest := layout writer events
      if (sendFrame writer p.encode write).1 then ([], (p, rest.1) :: rest.2) else rest
  | .noise bytes :: events =>
      let rest := layout writer events
      (bytes ++ rest.1, rest.2)
  | .recvBytes _ _ :: events => layout writer events

/-- A `send_frame` that fails has put nothing on the line. -/
def Whole (writer : Impl) : LineEvent → Prop
  | .sendFrame p write =>
      (sendFrame writer p.encode write).1 = true ∨ taken writer p.encode write = []
  | _ => True

theorem taken_of_sent {channel : Impl} {frame : List UInt8} {write : List UInt8 → Int}
    (h : (sendFrame channel frame write).1 = true) : taken channel frame write = frame := by
  rw [taken]
  simp only [sendFrame, Impl.send] at h ⊢
  split_ifs at h ⊢ with hopen
  rw [beq_iff_eq] at h
  simp [h]

theorem stream_append (bytes g : List UInt8) (items : List (Packet × List UInt8)) :
    stream (bytes ++ g) items = bytes ++ stream g items := by
  cases items with
  | nil => rfl
  | cons item rest => exact List.append_assoc _ _ _

/-- Where no frame is taken in part, the line carries frames with noise between them. -/
theorem flatMap_put (hwhole : ∀ e ∈ events, Whole writer e) :
    events.flatMap (LineEvent.put writer) =
      stream (layout writer events).1 (layout writer events).2 := by
  induction events with
  | nil => rfl
  | cons e events ih =>
      obtain ⟨he, hrest⟩ := List.forall_mem_cons.mp hwhole
      rw [List.flatMap_cons, ih hrest]
      cases e with
      | sendFrame p write =>
          simp only [layout, LineEvent.put]
          split_ifs with hsent
          · rw [taken_of_sent hsent]
            rfl
          · rw [he.resolve_left hsent, List.nil_append]
      | noise bytes => exact (stream_append _ _ _).symm
      | recvBytes timeout outcome => rfl

theorem map_layout (events : List LineEvent) :
    (layout writer events).2.map Prod.fst = sentPackets writer events := by
  induction events with
  | nil => rfl
  | cons e events ih =>
      rw [sentPackets, List.flatMap_cons, ← sentPackets, ← ih]
      cases e with
      | sendFrame p write =>
          simp only [layout]
          split_ifs with hsent
          · rfl
          · rfl
      | noise bytes => rfl
      | recvBytes timeout outcome => rfl

end RovSdk.SerialLine
