import RovSdk.LinkConservation
import RovSdk.SerialLine

namespace RovSdk.LineDelivery

open RovSdk.GreedyScan
open RovSdk.ProtocolBytes
open RovSdk.FrameFormat
open RovSdk.FrameRecognizer
open RovSdk.StreamParser
open RovSdk.ParserSessions
open RovSdk.Packets
open RovSdk.PacketRoundtrip
open RovSdk.StreamDelivery
open RovSdk.FrameLink
open RovSdk.LinkConservation
open RovSdk.SerialChannel (Impl)
open RovSdk.SerialLine

/-- A call with its reply accounts for these packets. -/
inductive Accounts : RecvCall → Reply → List Packet → Prop
  | frame (timeout : Int64) {r : Outcome (List UInt8)} {ps : List Packet} :
      returnedFrame r = ps.map Packet.encode → Accounts (.recvFrame timeout) (.frame r) ps
  | passed (timeout : Int64) {k : PacketType} {r : Outcome k.Pkt} {ps : List Packet} :
      r = .running ∨ r = .returned none → (∀ p ∈ ps, p.1 ≠ k) →
      Accounts (.recvFrameAs k timeout) (.packet k r) ps
  | packet (timeout : Int64) {k : PacketType} {ps : List Packet} (p : k.Pkt) :
      (∀ p ∈ ps, p.1 ≠ k) →
      Accounts (.recvFrameAs k timeout) (.packet k (.returned (some p))) (ps ++ [⟨k, p⟩])

theorem passedOver_encode_iff {k : PacketType} {p : Packet} :
    PassedOver k p.encode ↔ p.1 ≠ k := by
  obtain ⟨k', p⟩ := p
  obtain ⟨payload, hsize, -, hencode⟩ := encode_eq_encodeFrame p
  have hpos : 0 < k'.payloadSize := by cases k' <;> decide
  have htype : getU8 (k'.encode p) 4 = k'.type := by
    rw [hencode, ← List.append_nil (encodeFrame payload k'.type)]
    exact getU8_encodeFrame_append_type payload k'.type []
  have hlen : (k'.encode p).length ≠ kFrameOverhead := by
    rw [hencode, length_encodeFrame]
    omega
  simp only [PassedOver, Packet.encode, htype, hlen, or_false, ne_eq, not_iff_not]
  constructor
  · cases k <;> cases k' <;> simp [PacketType.type, kTypeCmd, kTypeTele]
  · rintro rfl
    rfl

theorem accounts_of_consumes {call : RecvCall} {reply : Reply} {ps : List Packet}
    (h : Consumes call reply (ps.map Packet.encode)) : Accounts call reply ps := by
  generalize hpart : ps.map Packet.encode = part at h
  cases h with
  | recvFrame timeout r => exact .frame timeout hpart.symm
  | passedOver timeout hr hpassed =>
      refine .passed timeout hr fun p hp => passedOver_encode_iff.mp (hpassed _ ?_)
      exact hpart ▸ List.mem_map_of_mem hp
  | decoded timeout hpassed hlast =>
      obtain ⟨before, after, rfl, rfl, hafter⟩ := List.map_eq_append_iff.mp hpart
      obtain ⟨p, rfl, rfl⟩ := List.map_eq_singleton_iff.mp hafter
      rw [passedOver_encode_iff, not_not] at hlast
      subst hlast
      rw [Packet.encode, decode_encode]
      exact .packet timeout p.2 fun q hq =>
        passedOver_encode_iff.mp (hpassed _ (List.mem_map_of_mem hq))

theorem exists_packets {parts : List (List (List UInt8))} {rest : List (List UInt8)}
    {ps : List Packet} (h : parts.flatten ++ rest = ps.map Packet.encode) :
    ∃ (parts' : List (List Packet)) (rest' : List Packet),
      parts'.map (List.map Packet.encode) = parts ∧ rest'.map Packet.encode = rest ∧
        parts'.flatten ++ rest' = ps := by
  induction parts generalizing ps with
  | nil => exact ⟨[], ps, rfl, h.symm, rfl⟩
  | cons part parts ih =>
      rw [List.flatten_cons, List.append_assoc] at h
      obtain ⟨part', ps', rfl, hpart, hps⟩ := List.map_eq_append_iff.mp h.symm
      obtain ⟨parts', rest', hparts, hrest, rfl⟩ := ih hps.symm
      refine ⟨part' :: parts', rest', ?_, hrest, ?_⟩
      · rw [List.map_cons, hpart, hparts]
      · rw [List.flatten_cons, List.append_assoc]

def OnLine (line : Line) (env : Env) : Prop := ∀ n, env.recvBytes n = line.heard[n]?.join

theorem bytesRead_eq {line : Line} {env : Env} (henv : OnLine line env) (l : Link) :
    bytesRead env l = ((line.heard.take l.timeouts.length).filterMap id).flatten := by
  rw [bytesRead]
  congr 1
  induction l.timeouts.length with
  | zero => rfl
  | succ n ih =>
      rw [List.range_succ, List.filterMap_append, ih, List.take_add_one, List.filterMap_append]
      congr 1
      simp only [List.filterMap_cons, List.filterMap_nil, henv n]
      cases line.heard[n]? with
      | none => rfl
      | some r => cases r <;> rfl

/-- The link has read a first part of what was put on the line, and all of it when nothing
is in transit and it has seen every result of its channel. -/
theorem bytesRead_prefix {writer reader : Impl} {events : List LineEvent} {line : Line}
    (h : Run writer reader events line) {env : Env} (henv : OnLine line env) (l : Link) :
    bytesRead env l <+: events.flatMap (LineEvent.put writer) ∧
      (line.transit = [] → line.heard.length ≤ l.timeouts.length →
        bytesRead env l = events.flatMap (LineEvent.put writer)) := by
  rw [bytesRead_eq henv, ← received_append_transit h]
  constructor
  · refine List.IsPrefix.trans ?_ (List.prefix_append _ _)
    exact ((List.take_prefix _ _).filterMap _).flatten
  · intro htransit hseen
    rw [htransit, List.append_nil, List.take_of_length_le hseen, Line.received]

theorem filter_lt_isInitial {ds : List (Nat × Packet)} {b : Nat}
    (hsorted : ds.Pairwise fun d d' => d.1 < d'.1) (hb : ∀ d ∈ ds, d.1 < b) (m : Nat) :
    (ds.filter fun d => d.1 < m) <+: ds := by
  have hall : (ds.filter fun d => d.1 < max m b) = ds :=
    List.filter_eq_self.mpr fun d hd => by simpa using .inr (hb d hd)
  rw [filter_lt_eq_append hsorted (Nat.le_max_left m b)] at hall
  exact ⟨_, hall⟩

/-- The frames complete in a first part of what was put on the line are those of the first
packets sent; all of it holds the frames of all packets sent. -/
theorem scan_put {writer : Impl} {events : List LineEvent}
    (hwhole : ∀ e ∈ events, Whole writer e) (hnoise : NoStart (layout writer events).1)
    (hitems : ∀ item ∈ (layout writer events).2, NoStart item.2) {s : List UInt8}
    (hs : s <+: events.flatMap (LineEvent.put writer)) :
    ∃ ps, (scan frames 0 s).map Prod.snd = ps.map Packet.encode ∧
      ps <+: sentPackets writer events ∧
      (s = events.flatMap (LineEvent.put writer) → ps = sentPackets writer events) := by
  have hput := flatMap_put hwhole
  have hscan := scan_take_stream hitems hnoise 0 s.length
  have hsent := (map_deliveries 0 (layout writer events).1 (layout writer events).2).trans
    (map_layout events)
  rw [Nat.zero_add, ← hput, ← List.prefix_iff_eq_take.mp hs] at hscan
  have hbounds : ∀ d ∈ deliveries 0 (layout writer events).1 (layout writer events).2,
      d.1 < (events.flatMap (LineEvent.put writer)).length := by
    intro d hd
    simpa [hput] using (bounds_of_mem_deliveries hd).2
  refine ⟨((deliveries 0 (layout writer events).1 (layout writer events).2).filter fun d =>
    d.1 < s.length).map Prod.snd, ?_, ?_, fun hall => ?_⟩
  · rw [hscan, List.map_map]
    rfl
  · rw [← hsent]
    exact (filter_lt_isInitial (pairwise_deliveries 0 _ _) hbounds s.length).map _
  · rw [← hsent, List.filter_eq_self.mpr fun d hd => by simpa [hall] using hbounds d hd]

/-- Whatever the interleaving of writes, reads and receive calls, and whatever noise without a
frame header comes between the frames: the receive calls at the reading end account, one after
another, for the first packets sent, each once and in order, and a typed call returns the
packet itself; the link keeps the rest of the packets whose frames are in the bytes that it
has read, so that none is missing once everything has been read. -/
theorem packets_in_order {writer reader : Impl} {events : List LineEvent} {line : Line}
    (h : Run writer reader events line) (hwhole : ∀ e ∈ events, Whole writer e)
    (hnoise : NoStart (layout writer events).1)
    (hitems : ∀ item ∈ (layout writer events).2, NoStart item.2) {env : Env}
    (henv : OnLine line env) (calls : List (Nat × RecvCall)) :
    ∃ (parts : List (List Packet)) (kept : List Packet),
      List.Forall₂ (fun entry part => Accounts entry.1 entry.2 part)
        (run env .serial {} calls).1 parts ∧
      (run env .serial {} calls).2.parser.drain.1 = kept.map Packet.encode ∧
      (({} : FrameParser).feed (bytesRead env (run env .serial {} calls).2)).drain.1 =
        (parts.flatten ++ kept).map Packet.encode ∧
      parts.flatten ++ kept <+: sentPackets writer events ∧
      (line.transit = [] →
        line.heard.length ≤ (run env .serial {} calls).2.timeouts.length →
        parts.flatten ++ kept = sentPackets writer events) := by
  obtain ⟨frameParts, hconsumes, hext⟩ := run_spec (extracted_start env) calls
  have hall := hext.append_drain
  obtain ⟨hinitial, hcomplete⟩ := bytesRead_prefix h henv (run env .serial {} calls).2
  obtain ⟨ps, hscan, hsent, hevery⟩ := scan_put hwhole hnoise hitems hinitial
  have hfed : (({} : FrameParser).feed
      (bytesRead env (run env .serial {} calls).2)).drain.1 = ps.map Packet.encode := by
    rw [drain_eq_scan _ 0, ← hscan]
    rfl
  rw [List.nil_append, hfed] at hall
  obtain ⟨parts, kept, rfl, hkept, rfl⟩ := exists_packets hall
  rw [List.forall₂_map_right_iff] at hconsumes
  exact ⟨parts, kept, hconsumes.imp fun _ _ h => accounts_of_consumes h, hkept.symm, hfed,
    hsent, fun htransit hseen => hevery (hcomplete htransit hseen)⟩

def opened : Impl := { fd := 3, isOpen := true }

def commandEvents : List LineEvent :=
  [.noise [0], .sendFrame ⟨.cmd, {}⟩ fun frame => frame.length,
    .recvBytes 1000 ⟨fun _ => (1, true), fun count =>
      some ⟨(0 :: encodeCmd {}).take count, List.length_take_le _ _⟩⟩]

theorem run_commandEvents :
    Run opened opened commandEvents ⟨[], [some (0 :: encodeCmd {})]⟩ := by
  have hput : Run opened opened (commandEvents.take 2) ⟨0 :: encodeCmd {}, []⟩ :=
    .sendFrame ⟨.cmd, {}⟩ (fun frame => frame.length) (.noise [0] .start)
  exact hput.arrival rfl (List.append_nil _).symm

def commandEnv : Env := ⟨fun _ => 0, fun n => [some (0 :: encodeCmd {})][n]?.join⟩

theorem command_in_order : ∃ (parts : List (List Packet)) (kept : List Packet),
    List.Forall₂ (fun entry part => Accounts entry.1 entry.2 part)
      (run commandEnv .serial {} [(2, .recvFrameAs .cmd 1000)]).1 parts ∧
    parts.flatten ++ kept <+: [⟨.cmd, {}⟩] := by
  have hwhole : ∀ e ∈ commandEvents, Whole opened e := by
    simp only [commandEvents, List.forall_mem_cons]
    exact ⟨trivial, .inl rfl, trivial, by simp⟩
  have henv : OnLine ⟨[], [some (0 :: encodeCmd {})]⟩ commandEnv := fun _ => rfl
  obtain ⟨parts, kept, haccounts, -, -, hinitial, -⟩ := packets_in_order run_commandEvents hwhole
    (by decide) (by decide) henv [(2, .recvFrameAs .cmd 1000)]
  exact ⟨parts, kept, haccounts, hinitial⟩

end RovSdk.LineDelivery
