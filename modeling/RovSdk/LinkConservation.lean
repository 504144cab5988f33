import RovSdk.FrameLink
import RovSdk.ParserSessions

namespace RovSdk.LinkConservation

open RovSdk.GreedyScan
open RovSdk.ProtocolBytes
open RovSdk.FrameFormat
open RovSdk.FrameRecognizer
open RovSdk.StreamParser
open RovSdk.ParserSessions
open RovSdk.Packets
open RovSdk.FrameLink

variable {env : Env} {l : Link} {fs : List (List UInt8)}

def bytesRead (env : Env) (l : Link) : List UInt8 :=
  ((List.range l.timeouts.length).filterMap env.recvBytes).flatten

/-- The frames extracted from the bytes read are `fs`; what follows them is in the
parser's buffer. -/
def Extracted (env : Env) (l : Link) (fs : List (List UInt8)) : Prop :=
  ∃ out c, Advance frames 0 (bytesRead env l) out c l.parser.buf ∧ out.map Prod.snd = fs

theorem extracted_start (env : Env) : Extracted env {} [] := ⟨[], 0, .refl _ _, rfl⟩

theorem bytesRead_ask (env : Env) (l : Link) (timeout : Int64) :
    bytesRead env (l.ask timeout) =
      bytesRead env l ++ (env.recvBytes l.timeouts.length).getD [] := by
  simp only [bytesRead, Link.ask, List.length_append, List.length_singleton,
    List.range_succ, List.filterMap_append, List.flatten_append, List.append_cancel_left_eq]
  cases h : env.recvBytes l.timeouts.length <;> simp [h]

namespace Extracted

theorem tick (h : Extracted env l fs) : Extracted env l.tick fs := h

theorem ask_none (h : Extracted env l fs)
    (hnone : env.recvBytes l.timeouts.length = none) (timeout : Int64) :
    Extracted env (l.ask timeout) fs := by
  obtain ⟨out, c, hadv, hmap⟩ := h
  exact ⟨out, c, by rwa [bytesRead_ask, hnone, Option.getD_none, List.append_nil], hmap⟩

theorem ask_feed (h : Extracted env l fs) {bytes : List UInt8}
    (hsome : env.recvBytes l.timeouts.length = some bytes) (timeout : Int64) :
    Extracted env ((l.ask timeout).feed bytes) fs := by
  obtain ⟨out, c, hadv, hmap⟩ := h
  refine ⟨out, c, ?_, hmap⟩
  have hread : bytesRead env ((l.ask timeout).feed bytes) = bytesRead env l ++ bytes := by
    rw [show bytesRead env ((l.ask timeout).feed bytes) = bytesRead env (l.ask timeout) from
      rfl, bytesRead_ask, hsome, Option.getD_some]
  rw [hread]
  exact hadv.append bytes

theorem nextFrame_none (h : Extracted env l fs) {p : FrameParser}
    (hnext : l.parser.nextFrame = (none, p)) :
    Extracted env { l with parser := p } fs := by
  obtain ⟨out, c, hadv, hmap⟩ := h
  obtain ⟨⟨c', hrest⟩, -⟩ := advance_of_nextFrame_none c hnext
  exact ⟨out ++ [], c', hadv.trans hrest, by rwa [List.append_nil]⟩

theorem nextFrame_some (h : Extracted env l fs) {p : FrameParser} {frame : List UInt8}
    (hnext : l.parser.nextFrame = (some frame, p)) :
    Extracted env { l with parser := p } (fs ++ [frame]) := by
  obtain ⟨out, c, hadv, hmap⟩ := h
  obtain ⟨i, hrest⟩ := advance_of_nextFrame_some c hnext
  exact ⟨_, _, hadv.trans hrest, by rw [List.map_append, hmap]; rfl⟩

/-- The frames extracted and those a drain now returns are the frames a fresh parser
extracts from all bytes read. -/
theorem append_drain (h : Extracted env l fs) :
    fs ++ l.parser.drain.1 = (({} : FrameParser).feed (bytesRead env l)).drain.1 := by
  obtain ⟨out, c, hadv, rfl⟩ := h
  obtain ⟨out', -, -, hmap, hscan⟩ := scan_eq_of_drains (drains_drain l.parser) c
  obtain ⟨all, -, -, hall, hscanAll⟩ :=
    scan_eq_of_drains (drains_drain (({} : FrameParser).feed (bytesRead env l))) 0
  have htotal : all = out ++ out' := by
    rw [← hscanAll, ← hscan]
    exact hadv.scan_eq
  rw [← hall, htotal, List.map_append, hmap]

end Extracted

def returnedFrame : Outcome (List UInt8) → List (List UInt8)
  | .returned (some frame) => [frame]
  | _ => []

theorem recvFrameLoop_spec (h : Extracted env l fs) (deadline : Int64) (fuel : Nat) :
    Extracted env (recvFrameLoop env deadline fuel l).2
        (fs ++ returnedFrame (recvFrameLoop env deadline fuel l).1) ∧
      ∀ frame ∈ returnedFrame (recvFrameLoop env deadline fuel l).1, ValidFrame frame := by
  induction fuel generalizing l with
  | zero => simpa [recvFrameLoop, returnedFrame] using h
  | succ fuel ih =>
      rw [recvFrameLoop]
      rcases hnext : l.parser.nextFrame with ⟨_ | frame, p⟩
      · have hpolled := (h.nextFrame_none hnext).tick
        simp only
        split_ifs with hdeadline hremaining
        · simpa [returnedFrame] using hpolled
        · simpa [returnedFrame] using hpolled
        · split
          next hnone => simpa [returnedFrame] using hpolled.ask_none hnone _
          next bytes hsome => exact ih (hpolled.ask_feed hsome _)
      · refine ⟨h.nextFrame_some hnext, fun f hf => ?_⟩
        obtain rfl := List.mem_singleton.mp hf
        exact validFrame_of_nextFrame_some hnext

theorem recvFrame_spec (h : Extracted env l fs) (fuel : Nat) (timeout : Int64) :
    Extracted env (recvFrame env fuel timeout l).2
        (fs ++ returnedFrame (recvFrame env fuel timeout l).1) ∧
      ∀ frame ∈ returnedFrame (recvFrame env fuel timeout l).1, ValidFrame frame := by
  simp only [recvFrame]
  split_ifs with htimeout
  · simpa [returnedFrame] using h
  · exact recvFrameLoop_spec h.tick _ _

/-- A frame that `recv_frame_as` drops: of another type, or with an empty payload. -/
def PassedOver (k : PacketType) (frame : List UInt8) : Prop :=
  getU8 frame 4 ≠ k.type ∨ frame.length = kFrameOverhead

/-- A call with its reply accounts for these frames. -/
inductive Consumes : RecvCall → Reply → List (List UInt8) → Prop
  | recvFrame (timeout : Int64) (r : Outcome (List UInt8)) :
      Consumes (.recvFrame timeout) (.frame r) (returnedFrame r)
  | passedOver (timeout : Int64) {k : PacketType} {r : Outcome k.Pkt}
      {passed : List (List UInt8)} :
      r = .running ∨ r = .returned none → (∀ frame ∈ passed, PassedOver k frame) →
      Consumes (.recvFrameAs k timeout) (.packet k r) passed
  | decoded (timeout : Int64) {k : PacketType} {passed : List (List UInt8)}
      {last : List UInt8} :
      (∀ frame ∈ passed, PassedOver k frame) → ¬PassedOver k last →
      Consumes (.recvFrameAs k timeout) (.packet k (.returned (k.decode last)))
        (passed ++ [last])

theorem Consumes.cons {k : PacketType} {timeout : Int64} {r : Outcome k.Pkt}
    {part : List (List UInt8)} (h : Consumes (.recvFrameAs k timeout) (.packet k r) part)
    {frame : List UInt8} (hframe : PassedOver k frame) :
    Consumes (.recvFrameAs k timeout) (.packet k r) (frame :: part) := by
  cases h with
  | passedOver _ hr hpart =>
      exact .passedOver _ hr (List.forall_mem_cons.mpr ⟨hframe, hpart⟩)
  | decoded _ hpart hlast =>
      exact .decoded _ (List.forall_mem_cons.mpr ⟨hframe, hpart⟩) hlast

theorem passedOver_iff {k : PacketType} {frame : List UInt8} (h : ValidFrame frame) :
    PassedOver k frame ↔
      ¬(frame.length ≥ kFrameOverhead + 1 ∧ getU8 frame 4 = k.type) := by
  obtain ⟨payload, type, -, rfl⟩ := h
  rw [PassedOver, length_encodeFrame]
  by_cases htype : getU8 (encodeFrame payload type) 4 = k.type
  · simp [htype]
  · simp [htype]

theorem recvFrameAsLoop_spec (h : Extracted env l fs) (inner : Nat) (k : PacketType)
    (timeout deadline : Int64) (fuel : Nat) :
    ∃ part, Consumes (.recvFrameAs k timeout)
        (.packet k (recvFrameAsLoop (recvFrame env inner) env k deadline fuel l).1) part ∧
      Extracted env (recvFrameAsLoop (recvFrame env inner) env k deadline fuel l).2
        (fs ++ part) := by
  induction fuel generalizing l fs with
  | zero =>
      exact ⟨[], .passedOver _ (.inl rfl) (by simp), by simpa [recvFrameAsLoop] using h⟩
  | succ fuel ih =>
      rw [recvFrameAsLoop]
      simp only
      split_ifs with hdeadline hremaining
      · exact ⟨[], .passedOver _ (.inr rfl) (by simp), by simpa using h.tick⟩
      · exact ⟨[], .passedOver _ (.inr rfl) (by simp), by simpa using h.tick⟩
      · obtain ⟨hext, hvalid⟩ := recvFrame_spec h.tick inner
          (remainingMillis deadline (env.now l.ticks))
        generalize recvFrame env inner (remainingMillis deadline (env.now l.ticks)) l.tick =
          r at hext hvalid ⊢
        rcases r with ⟨_ | _ | frame, l'⟩
        · exact ⟨[], .passedOver _ (.inl rfl) (by simp), hext⟩
        · exact ⟨[], .passedOver _ (.inr rfl) (by simp), hext⟩
        · have hframe := hvalid frame (List.mem_singleton.mpr rfl)
          simp only
          split_ifs with hmatch
          · refine ⟨[] ++ [frame], .decoded _ (by simp) ?_, hext⟩
            rw [passedOver_iff hframe]
            exact not_not_intro hmatch
          · obtain ⟨part, hconsumes, hrest⟩ := ih hext
            refine ⟨frame :: part, hconsumes.cons ((passedOver_iff hframe).mpr hmatch), ?_⟩
            rwa [returnedFrame, List.append_assoc] at hrest

theorem call_spec (h : Extracted env l fs) (fuel : Nat) (call : RecvCall) :
    ∃ part, Consumes call (l.call env .serial fuel call).1 part ∧
      Extracted env (l.call env .serial fuel call).2 (fs ++ part) := by
  cases call with
  | recvFrame timeout => exact ⟨_, .recvFrame timeout _, (recvFrame_spec h fuel timeout).1⟩
  | recvFrameAs k timeout =>
      simp only [Link.call, recvFrameAs]
      split_ifs with htimeout
      · exact ⟨[], .passedOver _ (.inr rfl) (by simp), by simpa using h⟩
      · exact recvFrameAsLoop_spec h.tick fuel k timeout _ fuel

theorem run_spec (h : Extracted env l fs) (calls : List (Nat × RecvCall)) :
    ∃ parts, List.Forall₂ (fun entry part => Consumes entry.1 entry.2 part)
        (run env .serial l calls).1 parts ∧
      Extracted env (run env .serial l calls).2 (fs ++ parts.flatten) := by
  induction calls generalizing l fs with
  | nil => exact ⟨[], .nil, by simpa [run] using h⟩
  | cons entry calls ih =>
      obtain ⟨fuel, call⟩ := entry
      obtain ⟨part, hconsumes, hext⟩ := call_spec h fuel call
      simp only [run]
      split_ifs with hrunning
      · exact ⟨[part], .cons hconsumes .nil, by simpa using hext⟩
      · obtain ⟨parts, hparts, hrest⟩ := ih hext
        exact ⟨part :: parts, .cons hconsumes hparts, by simpa using hrest⟩

/-- Over a whole run of receive calls on a stream link, whatever its channel delivers
and the clock shows, the calls account one after another for the frames that a fresh
parser extracts from all bytes read; those not accounted for yet are what the link's
parser still returns. -/
theorem run_conserves_frames (env : Env) (calls : List (Nat × RecvCall)) :
    ∃ parts, List.Forall₂ (fun entry part => Consumes entry.1 entry.2 part)
        (run env .serial {} calls).1 parts ∧
      parts.flatten ++ (run env .serial {} calls).2.parser.drain.1 =
        (({} : FrameParser).feed
          (bytesRead env (run env .serial {} calls).2)).drain.1 := by
  obtain ⟨parts, hparts, hext⟩ := run_spec (extracted_start env) calls
  exact ⟨parts, hparts, hext.append_drain⟩

end RovSdk.LinkConservation
