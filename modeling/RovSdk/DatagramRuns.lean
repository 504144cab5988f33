import RovSdk.TypedUdpReceive

namespace RovSdk.DatagramRuns

open RovSdk.ProtocolBytes
open RovSdk.FrameFormat
open RovSdk.Packets
open RovSdk.PacketRoundtrip
open RovSdk.FrameLink
open RovSdk.Deadlines
open RovSdk.LinkConservation
open RovSdk.ValidatorAgreement
open RovSdk.TypedUdpReceive

variable {env : Env} {l : Link}

/-- The datagrams that the channel has handed to the link. -/
def datagrams (env : Env) (l : Link) : List (List UInt8) :=
  (List.range l.timeouts.length).filterMap env.recvBytes

/-- A call with its reply uses up these datagrams. -/
inductive Takes : RecvCall → Reply → List (List UInt8) → Prop
  | silent (timeout : Int64) : Takes (.recvFrame timeout) (.frame (.returned none)) []
  | checked (timeout : Int64) {r : Option (List UInt8)} {d : List UInt8} :
      r = checkDatagram d → Takes (.recvFrame timeout) (.frame (.returned r)) [d]
  | passed (timeout : Int64) {k : PacketType} {r : Outcome k.Pkt} {ds : List (List UInt8)} :
      r = .running ∨ r = .returned none → (∀ d ∈ ds, Passes k d) →
      Takes (.recvFrameAs k timeout) (.packet k r) ds
  | ended (timeout : Int64) {k : PacketType} {r : Option k.Pkt} {ds : List (List UInt8)}
      {last : List UInt8} :
      (∀ d ∈ ds, Passes k d) → ¬Passes k last →
      r = (if ValidFrame last then k.decode last else none) →
      Takes (.recvFrameAs k timeout) (.packet k (.returned r)) (ds ++ [last])

theorem Takes.cons {k : PacketType} {timeout : Int64} {r : Outcome k.Pkt}
    {part : List (List UInt8)} (h : Takes (.recvFrameAs k timeout) (.packet k r) part)
    {d : List UInt8} (hd : Passes k d) :
    Takes (.recvFrameAs k timeout) (.packet k r) (d :: part) := by
  cases h with
  | passed _ hr hpart => exact .passed _ hr (List.forall_mem_cons.mpr ⟨hd, hpart⟩)
  | ended _ hpart hlast hr =>
      exact .ended _ (List.forall_mem_cons.mpr ⟨hd, hpart⟩) hlast hr

theorem datagrams_ask (env : Env) (l : Link) (timeout : Int64) :
    datagrams env (l.ask timeout) =
      datagrams env l ++ (env.recvBytes l.timeouts.length).toList := by
  simp only [datagrams, Link.ask, List.length_append, List.length_singleton, List.range_succ,
    List.filterMap_append, List.append_cancel_left_eq]
  cases h : env.recvBytes l.timeouts.length <;> simp [h]

theorem datagrams_ask_of_some {d : List UInt8} (h : env.recvBytes l.timeouts.length = some d)
    (timeout : Int64) : datagrams env (l.ask timeout) = datagrams env l ++ [d] := by
  rw [datagrams_ask, h, Option.toList_some]

theorem datagrams_ask_of_none (h : env.recvBytes l.timeouts.length = none)
    (timeout : Int64) : datagrams env (l.ask timeout) = datagrams env l := by
  rw [datagrams_ask, h, Option.toList_none, List.append_nil]

theorem checkDatagram_eq_ite (d : List UInt8) :
    checkDatagram d = if ValidFrame d then some d else none := by
  split_ifs with hvalid
  · exact checkDatagram_eq_some_iff.mpr ⟨rfl, hvalid⟩
  · rw [Option.eq_none_iff_forall_ne_some]
    exact fun frame h => hvalid (checkDatagram_eq_some_iff.mp h).2

theorem udpRecvFrame_takes (env : Env) (timeout : Int64) (l : Link) :
    ∃ part, Takes (.recvFrame timeout) (.frame (udpRecvFrame env timeout l).1) part ∧
      datagrams env (udpRecvFrame env timeout l).2 = datagrams env l ++ part := by
  rw [udpRecvFrame]
  split_ifs with htimeout
  · exact ⟨[], .silent timeout, (List.append_nil _).symm⟩
  · cases harrives : env.recvBytes l.timeouts.length with
    | none =>
        refine ⟨[], .silent timeout, ?_⟩
        rw [datagrams_ask_of_none harrives, List.append_nil]
    | some d => exact ⟨[d], .checked timeout rfl, datagrams_ask_of_some harrives timeout⟩

theorem recvFrameAsLoop_takes (inner : Nat) (k : PacketType) (timeout deadline : Int64)
    (fuel : Nat) (l : Link) :
    ∃ part, Takes (.recvFrameAs k timeout)
        (.packet k
          (recvFrameAsLoop (LinkClass.udp.recvFrame env inner) env k deadline fuel l).1) part ∧
      datagrams env
          (recvFrameAsLoop (LinkClass.udp.recvFrame env inner) env k deadline fuel l).2 =
        datagrams env l ++ part := by
  induction fuel generalizing l with
  | zero => exact ⟨[], .passed _ (.inl rfl) (by simp), (List.append_nil _).symm⟩
  | succ fuel ih =>
      by_cases hleft : TimeLeft deadline (env.now l.ticks)
      · have hremaining := Int64.not_le.mpr hleft.pos
        rw [recvFrameAsLoop_of_timeLeft _ _ _ hleft]
        simp only [LinkClass.recvFrame, udpRecvFrame, if_neg hremaining]
        cases harrives : env.recvBytes l.tick.timeouts.length with
        | none =>
            refine ⟨[], .passed _ (.inr rfl) (by simp), ?_⟩
            rw [List.append_nil]
            exact datagrams_ask_of_none harrives _
        | some d =>
            have hasked := datagrams_ask_of_some harrives
              (remainingMillis deadline (env.now l.ticks))
            simp only [checkDatagram_eq_ite d]
            by_cases hvalid : ValidFrame d
            · simp only [if_pos hvalid]
              by_cases hmatch : d.length ≥ kFrameOverhead + 1 ∧ getU8 d 4 = k.type
              · have hpasses : ¬Passes k d := fun h =>
                  (passedOver_iff hvalid).mp h.2 hmatch
                rw [if_pos hmatch]
                refine ⟨[] ++ [d], .ended _ (by simp) hpasses ?_, hasked⟩
                exact (if_pos hvalid).symm
              · rw [if_neg hmatch]
                obtain ⟨part, htakes, hrest⟩ :=
                  ih (l.tick.ask (remainingMillis deadline (env.now l.ticks)))
                refine ⟨d :: part, htakes.cons ⟨hvalid, (passedOver_iff hvalid).mpr hmatch⟩, ?_⟩
                exact hrest.trans (by rw [hasked, List.append_assoc]; rfl)
            · simp only [if_neg hvalid]
              refine ⟨[] ++ [d], .ended _ (by simp) (fun h => hvalid h.1) ?_, hasked⟩
              exact (if_neg hvalid).symm
      · refine ⟨[], .passed _ (.inr ?_) (by simp), ?_⟩
        · rw [recvFrameAsLoop_of_not_timeLeft _ k fuel hleft]
        · rw [recvFrameAsLoop_of_not_timeLeft _ k fuel hleft]
          exact (List.append_nil _).symm

theorem call_takes (env : Env) (l : Link) (fuel : Nat) (call : RecvCall) :
    ∃ part, Takes call (l.call env .udp fuel call).1 part ∧
      datagrams env (l.call env .udp fuel call).2 = datagrams env l ++ part := by
  cases call with
  | recvFrame timeout => exact udpRecvFrame_takes env timeout l
  | recvFrameAs k timeout =>
      simp only [Link.call, recvFrameAs]
      split_ifs with htimeout
      · exact ⟨[], .passed _ (.inr rfl) (by simp), (List.append_nil _).symm⟩
      · exact recvFrameAsLoop_takes fuel k timeout _ fuel l.tick

theorem run_takes (env : Env) (l : Link) (calls : List (Nat × RecvCall)) :
    ∃ parts, List.Forall₂ (fun entry part => Takes entry.1 entry.2 part)
        (run env .udp l calls).1 parts ∧
      datagrams env (run env .udp l calls).2 = datagrams env l ++ parts.flatten := by
  induction calls generalizing l with
  | nil => exact ⟨[], .nil, (List.append_nil _).symm⟩
  | cons entry calls ih =>
      obtain ⟨fuel, call⟩ := entry
      obtain ⟨part, htakes, hcall⟩ := call_takes env l fuel call
      simp only [run]
      split_ifs with hrunning
      · exact ⟨[part], .cons htakes .nil, by simpa using hcall⟩
      · obtain ⟨parts, hparts, hrest⟩ := ih (l.call env .udp fuel call).2
        refine ⟨part :: parts, .cons htakes hparts, ?_⟩
        rw [hrest, hcall, List.flatten_cons, List.append_assoc]

/-- Over a whole run of receive calls on a UDP link, whatever its channel delivers and the
clock shows, the calls use up one after another the datagrams that the channel has handed
over, each by exactly one call; none is left for a later call. -/
theorem run_uses_up_datagrams (env : Env) (calls : List (Nat × RecvCall)) :
    ∃ parts, List.Forall₂ (fun entry part => Takes entry.1 entry.2 part)
        (run env .udp {} calls).1 parts ∧
      parts.flatten = datagrams env (run env .udp {} calls).2 := by
  obtain ⟨parts, hparts, hall⟩ := run_takes env {} calls
  exact ⟨parts, hparts, hall.symm⟩

theorem eq_encode_of_decode {k : PacketType} {d : List UInt8} {p : k.Pkt}
    (hvalid : ValidFrame d) (h : k.decode d = some p) : d = k.encode p := by
  obtain ⟨n, hholds, hlen⟩ := validFrame_iff.mp hvalid
  have hsize := ((isSome_decode_iff hvalid).mp (Option.isSome_of_eq_some h)).2
  rw [hholds.len] at hsize
  obtain ⟨payload, hpayload, -, hencode⟩ := encode_eq_encodeFrame p
  obtain ⟨t, rfl⟩ := decode_eq_some_iff.mp h
  rw [List.length_append, hencode, length_encodeFrame] at hlen
  have ht : t = [] := List.eq_nil_of_length_eq_zero (by omega)
  rw [ht, List.append_nil]

theorem Takes.mem_of_frame {timeout : Int64} {frame : List UInt8} {part : List (List UInt8)}
    (h : Takes (.recvFrame timeout) (.frame (.returned (some frame))) part) :
    frame ∈ part ∧ ValidFrame frame := by
  cases h with
  | checked _ hr =>
      obtain ⟨rfl, hvalid⟩ := checkDatagram_eq_some_iff.mp hr.symm
      exact ⟨List.mem_singleton.mpr rfl, hvalid⟩

theorem Takes.mem_of_packet {timeout : Int64} {k : PacketType} {p : k.Pkt}
    {part : List (List UInt8)}
    (h : Takes (.recvFrameAs k timeout) (.packet k (.returned (some p))) part) :
    k.encode p ∈ part := by
  cases h with
  | passed _ hr => rcases hr with hr | hr <;> cases hr
  | @ended _ _ _ ds last _ _ hr =>
      split_ifs at hr with hvalid
      rw [← eq_encode_of_decode hvalid hr.symm]
      exact List.mem_append_right ds (List.mem_singleton.mpr rfl)

end RovSdk.DatagramRuns
