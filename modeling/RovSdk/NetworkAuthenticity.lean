import RovSdk.DatagramRuns
import RovSdk.NetworkTraffic
import RovSdk.Results
import RovSdk.TransmissionErrors

namespace RovSdk.NetworkAuthenticity

open RovSdk.FrameFormat
open RovSdk.Packets
open RovSdk.PacketRoundtrip
open RovSdk.FrameLink
open RovSdk.UdpChannel
open RovSdk.PeerRule
open RovSdk.DatagramNetwork
open RovSdk.NetworkTraffic
open RovSdk.DatagramRuns
open RovSdk.TransmissionErrors

variable {ι : Type*} [DecidableEq ι] {inetPton : String → Option UInt32}
  {address : ι → SockAddrIn} {garbled : List UInt8 → List UInt8 → Prop} {s : Network ι}

/-- Some datagram sent to the site carries these data, or carried them before the network
garbled it. -/
def Sent (address : ι → SockAddrIn) (garbled : List UInt8 → List UInt8 → Prop)
    (s : Network ι) (i : ι) (data : List UInt8) : Prop :=
  ∃ d ∈ s.sent, d.dst = address i ∧ (data = d.data ∨ garbled d.data data)

omit [DecidableEq ι] in
theorem Sent.mono {s' : Network ι} {i : ι} {data : List UInt8}
    (h : Sent address garbled s i data) (hsent : s.sent ⊆ s'.sent) :
    Sent address garbled s' i data := by
  obtain ⟨d, hd, hrest⟩ := h
  exact ⟨d, hsent hd, hrest⟩

theorem sent_subset_act (s : Network ι) (i : ι) (call : ChannelCall) :
    s.sent ⊆ (s.act inetPton address i call).sent := List.subset_append_left _ _

theorem heard_sent (h : Reachable inetPton address garbled s) (i : ι) :
    ∀ data, some data ∈ (s.site i).heard → Sent address garbled s i data := by
  induction h with
  | refl => simp
  | @tail s s' _ hstep ih =>
      cases hstep with
      | act k call hdeliver =>
          intro data hdata
          refine Sent.mono (s := s) ?_ (sent_subset_act s k call)
          rcases eq_or_ne i k with rfl | hne
          · simp only [Network.act, Function.update_self, Site.step, List.mem_append] at hdata
            rcases hdata with hbefore | hnow
            · exact ih data hbefore
            · obtain ⟨src, harrival⟩ := some_mem_heard_iff.mp hnow
              obtain ⟨d, hd, -, hdst, hsame⟩ := hdeliver data src harrival
              exact ⟨d, hd, hdst, hsame⟩
          · simp only [Network.act, Function.update_of_ne hne] at hdata
            exact ih data hdata

/-- An error pattern that the CRC detects has come upon the datagram. -/
def Garbled (data data' : List UInt8) : Prop :=
  ∃ e, e.length = data.length ∧ Detectable e ∧ data' = xorBytes data e

def OnSite (s : Network ι) (i : ι) (env : Env) : Prop :=
  ∀ n, env.recvBytes n = (s.site i).heard[n]?.join

omit [DecidableEq ι] in
theorem OnSite.mem_heard {i : ι} {env : Env} (h : OnSite s i env) {l : Link}
    {d : List UInt8} (hd : d ∈ datagrams env l) : some d ∈ (s.site i).heard := by
  obtain ⟨n, -, hn⟩ := List.mem_filterMap.mp hd
  rw [h n, Option.join_eq_some_iff] at hn
  exact List.mem_of_getElem? hn

/-- Where the network carries nothing but frames of packets, a valid frame that a site hears
is one of them, for the errors upon the others are detected. -/
theorem validFrame_sent (h : Reachable inetPton address Garbled s)
    (hframes : ∀ d ∈ s.sent, ∃ p : Packet, d.data = p.encode) {i : ι} {env : Env}
    (henv : OnSite s i env) {l : Link} {frame : List UInt8} (hmem : frame ∈ datagrams env l)
    (hvalid : ValidFrame frame) : ∃ d ∈ s.sent, d.dst = address i ∧ d.data = frame := by
  obtain ⟨d, hd, hdst, hsame⟩ := heard_sent h i frame (henv.mem_heard hmem)
  rcases hsame with rfl | ⟨e, hlen, hdetectable, rfl⟩
  · exact ⟨d, hd, hdst, rfl⟩
  · obtain ⟨p, hp⟩ := hframes d hd
    have hsent : ValidFrame d.data := hp ▸ validFrame_encode p.2
    exact absurd hvalid (not_validFrame_xor hsent hlen hdetectable)

/-- On a network that loses, delays, reorders, repeats and garbles datagrams, whatever the
interleaving of the sites' calls: every packet that a typed receive returns, and every frame
that a receive returns, was sent to this site before. -/
theorem packets_authentic (h : Reachable inetPton address Garbled s)
    (hframes : ∀ d ∈ s.sent, ∃ p : Packet, d.data = p.encode) {i : ι} {env : Env}
    (henv : OnSite s i env) (calls : List (Nat × RecvCall)) :
    (∀ k timeout p, (RecvCall.recvFrameAs k timeout, Reply.packet k (.returned (some p))) ∈
        (run env .udp {} calls).1 →
        ∃ d ∈ s.sent, d.dst = address i ∧ d.data = k.encode p) ∧
      ∀ timeout frame, (RecvCall.recvFrame timeout, Reply.frame (.returned (some frame))) ∈
        (run env .udp {} calls).1 → ∃ d ∈ s.sent, d.dst = address i ∧ d.data = frame := by
  obtain ⟨parts, hparts, hall⟩ := run_takes env {} calls
  have htaken : ∀ part ∈ parts, ∀ d ∈ part, d ∈ datagrams env (run env .udp {} calls).2 := by
    intro part hpart d hd
    rw [hall]
    exact List.mem_append_right _ (List.mem_flatten.mpr ⟨part, hpart, hd⟩)
  constructor
  · intro k timeout p hreply
    obtain ⟨part, hpart, htakes⟩ := Results.exists_of_mem_left hparts hreply
    have hmem := htaken part hpart _ htakes.mem_of_packet
    exact validFrame_sent h hframes henv hmem (validFrame_encode p)
  · intro timeout frame hreply
    obtain ⟨part, hpart, htakes⟩ := Results.exists_of_mem_left hparts hreply
    obtain ⟨hframe, hvalid⟩ := htakes.mem_of_frame
    exact validFrame_sent h hframes henv (htaken part hpart _ hframe) hvalid

theorem heard_commanded : (commandedNetwork.site false).heard = [some (encodeCmd {})] := rfl

def commandedEnv : Env := ⟨fun _ => 0, fun n => [some (encodeCmd {})][n]?.join⟩

theorem receive_commanded :
    (recvFrameAs commandedEnv 1 .udp .cmd 1000 {}).1 = .returned (some {}) := by
  decide +kernel

theorem command_authentic : ∃ d ∈ commandedNetwork.sent,
    d.dst = loopback false ∧ d.data = PacketType.cmd.encode {} := by
  have hframes : ∀ d ∈ commandedNetwork.sent, ∃ p : Packet, d.data = p.encode := by
    rw [sent_commanded, List.forall_mem_cons, List.forall_mem_singleton]
    exact ⟨⟨⟨.cmd, {}⟩, rfl⟩, ⟨⟨.cmd, {}⟩, rfl⟩⟩
  have henv : OnSite commandedNetwork false commandedEnv := fun n => by
    rw [heard_commanded, commandedEnv]
  refine (packets_authentic (reachable_commanded Garbled) hframes henv
    [(1, .recvFrameAs .cmd 1000)]).1
    .cmd 1000 {} ?_
  simp only [run, Link.call, receive_commanded, Reply.isRunning, Outcome.isRunning]
  simp

end RovSdk.NetworkAuthenticity
