import RovSdk.FrameLink
import RovSdk.PacketRoundtrip
import RovSdk.ParserSessions

namespace RovSdk.ValidatorAgreement

open RovSdk.ListSlices
open RovSdk.GreedyScan
open RovSdk.ProtocolBytes
open RovSdk.FrameFormat
open RovSdk.FrameRecognizer
open RovSdk.StreamParser
open RovSdk.ParserSessions
open RovSdk.Packets
open RovSdk.PacketRoundtrip
open RovSdk.FrameLink

theorem validFrame_iff {d : List UInt8} :
    ValidFrame d ↔ ∃ n, HoldsFrame d n ∧ d.length = kFrameOverhead + n := by
  constructor
  · rintro ⟨payload, type, hle, hd⟩
    exact ⟨payload.length, holdsFrame_exact_iff.mpr ⟨payload, type, rfl, hle, hd⟩⟩
  · rintro ⟨n, h⟩
    obtain ⟨payload, type, rfl, hle, hd⟩ := holdsFrame_exact_iff.mp h
    exact ⟨payload, type, hle, hd⟩

/-- A datagram passes the checks when it is one frame and nothing else. -/
theorem checkDatagram_eq_some_iff {d frame : List UInt8} :
    checkDatagram d = some frame ↔ frame = d ∧ ValidFrame d := by
  have hk := kFrameOverhead_eq
  have hoff : ∀ n, kFrameOverhead + n - 2 = 5 + n := fun n => by omega
  rw [validFrame_iff]
  simp only [checkDatagram, hoff]
  constructor
  · intro h
    split_ifs at h with hsize htotal hstart hcrc
    simp only [not_or, not_not] at htotal hstart hcrc
    exact ⟨(Option.some.inj h).symm, _,
      ⟨htotal.ge, hstart.1, hstart.2.1, hstart.2.2, rfl, hcrc⟩, htotal⟩
  · rintro ⟨rfl, n, ⟨hfits, h0, h1, h2, rfl, hcrc⟩, hlen⟩
    rw [if_neg (by omega), if_neg (by simp [hlen]), if_neg (by simp [h0, h1, h2]),
      if_neg (by simp [hcrc])]

theorem udpRecvFrame_eq_iff {env : Env} {l : Link} {timeout : Int64} {d : List UInt8}
    (htimeout : 0 < timeout) (hd : env.recvBytes l.timeouts.length = some d) :
    (udpRecvFrame env timeout l).1 = .returned (some d) ↔ ValidFrame d := by
  have hpos : ¬timeout ≤ 0 := Int64.not_le.mpr htimeout
  rw [udpRecvFrame, if_neg hpos, hd]
  simp [checkDatagram_eq_some_iff]

theorem nextFrame_feed_eq_iff {d : List UInt8} :
    (({} : FrameParser).feed d).nextFrame.1 = some d ↔ ValidFrame d := by
  constructor
  · intro h
    exact validFrame_of_nextFrame_some (Prod.ext h rfl)
  · rintro ⟨payload, type, hle, rfl⟩
    have hv := frameVerdict_encodeFrame_append hle type []
    rw [List.append_nil] at hv
    have hscan := scan_of_accept (R := frames) (s := encodeFrame payload type) hv 0
    rw [List.take_length] at hscan
    rcases hnext : (({} : FrameParser).feed (encodeFrame payload type)).nextFrame with
      ⟨_ | frame, p⟩
    · obtain ⟨⟨c, hadv⟩, -⟩ := advance_of_nextFrame_none 0 hnext
      have hnil := hadv.scan_eq
      rw [scan_eq_nil_of_nextFrame_none c hnext] at hnil
      exact absurd (hscan.symm.trans hnil) (by simp)
    · obtain ⟨i, hadv⟩ := advance_of_nextFrame_some 0 hnext
      have hcons := hscan.symm.trans hadv.scan_eq
      simp only [List.cons_append, List.cons.injEq, Prod.mk.injEq] at hcons
      rw [hcons.1.2]

/-- A frame decodes as a packet when its type and length bytes are those of the packet. -/
theorem isSome_decode_iff {k : PacketType} {d : List UInt8} (h : ValidFrame d) :
    (k.decode d).isSome ↔ getU8 d 4 = k.type ∧ (getU8 d 3).toNat = k.payloadSize := by
  obtain ⟨n, hholds, -⟩ := validFrame_iff.mp h
  have hdecode : (k.decode d).isSome ↔
      validateFrameHeader d k.type k.payloadSize = true := by
    rw [decode_eq_layout, PacketLayout.decode, layout_type, layout_size]
    cases validateFrameHeader d k.type k.payloadSize <;> simp
  rw [hdecode, validateFrameHeader_iff_holdsFrame, and_comm]
  refine and_congr_right fun _ => ⟨fun hsize => hsize.len, fun hsize => ?_⟩
  rwa [← hsize, hholds.len]

theorem validFrame_of_isSome_decode {k : PacketType} {d : List UInt8}
    (hlen : d.length = kFrameOverhead + k.payloadSize) (h : (k.decode d).isSome) :
    ValidFrame d := by
  obtain ⟨p, hp⟩ := Option.isSome_iff_exists.mp h
  obtain ⟨t, rfl⟩ := decode_eq_some_iff.mp hp
  obtain ⟨payload, hsize, hle, hencode⟩ := encode_eq_encodeFrame p
  have ht : t = [] := by
    rw [List.length_append, hencode, length_encodeFrame] at hlen
    exact List.eq_nil_of_length_eq_zero (by omega)
  rw [ht, List.append_nil]
  exact ⟨payload, k.type, hle, hencode⟩

/-- The datagram path and the stream parser take the same byte strings as one whole
frame; on what either of them yields, decoding depends on the type and length bytes
alone; and whatever decodes at its exact length is taken by both. -/
theorem validators_agree {env : Env} {l : Link} {timeout : Int64} {d : List UInt8}
    (htimeout : 0 < timeout) (hd : env.recvBytes l.timeouts.length = some d)
    (k : PacketType) :
    ((udpRecvFrame env timeout l).1 = .returned (some d) ↔
        (({} : FrameParser).feed d).nextFrame.1 = some d) ∧
      ((udpRecvFrame env timeout l).1 = .returned (some d) ∨
          (∃ calls, (session calls).parser.nextFrame.1 = some d) →
        ((k.decode d).isSome ↔
          getU8 d 4 = k.type ∧ (getU8 d 3).toNat = k.payloadSize)) ∧
      (d.length = kFrameOverhead + k.payloadSize → (k.decode d).isSome →
        (udpRecvFrame env timeout l).1 = .returned (some d) ∧
          (({} : FrameParser).feed d).nextFrame.1 = some d) := by
  rw [udpRecvFrame_eq_iff htimeout hd, nextFrame_feed_eq_iff]
  refine ⟨Iff.rfl, ?_, fun hlen h => ?_⟩
  · rintro (h | ⟨calls, h⟩)
    · exact isSome_decode_iff h
    · exact isSome_decode_iff (validFrame_of_nextFrame_some (Prod.ext h rfl))
  · have hvalid := validFrame_of_isSome_decode hlen h
    exact ⟨hvalid, hvalid⟩

theorem validators_agree_on_command :
    (udpRecvFrame ⟨fun _ => 0, fun _ => some (encodeCmd {})⟩ 1000 {}).1 =
        .returned (some (encodeCmd {})) ↔
      (({} : FrameParser).feed (encodeCmd {})).nextFrame.1 = some (encodeCmd {}) :=
  (@validators_agree ⟨fun _ => 0, fun _ => some (encodeCmd {})⟩ {} 1000 _ (by decide) rfl
    .cmd).1

end RovSdk.ValidatorAgreement
