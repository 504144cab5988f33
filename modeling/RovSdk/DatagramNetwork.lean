import RovSdk.AddressLearning
import RovSdk.PeerRule

namespace RovSdk.DatagramNetwork

open RovSdk.UdpChannel
open RovSdk.PeerRule
open RovSdk.AddressLearning (World Introduced Introducing Separates)

structure Datagram where
  src : SockAddrIn
  dst : SockAddrIn
  data : List UInt8
  deriving DecidableEq, Repr

/-- The datagram that a receive on an open channel is handed, with its source. -/
def arrival (impl : Impl) : ChannelCall → Option (List UInt8 × SockAddrIn)
  | .recvBytes timeout outcome => if impl.isOpen then outcome.arrival timeout else none
  | .tryRecvBytes outcome => if impl.isOpen then outcome.arrival 0 else none
  | _ => none

/-- The datagram that a successful send hands over, with its destination. -/
def handed (impl : Impl) : ChannelCall → Option (SockAddrIn × List UInt8)
  | .send data sendto =>
      let r := impl.send data sendto
      if r.1 then r.2 else none
  | _ => none

def heard (impl : Impl) : ChannelCall → List (Option (List UInt8))
  | .recvBytes timeout outcome => [(impl.recvBytes timeout outcome).1]
  | .tryRecvBytes outcome => [(impl.tryRecvBytes outcome).1]
  | _ => []

theorem source_eq (impl : Impl) (call : ChannelCall) :
    call.source impl = (arrival impl call).map Prod.snd := by
  cases call with
  | recvBytes timeout outcome =>
      simp only [ChannelCall.source, arrival]
      split_ifs <;> rfl
  | tryRecvBytes outcome =>
      simp only [ChannelCall.source, arrival]
      split_ifs <;> rfl
  | _ => rfl

theorem recvBytes_fst (impl : Impl) (timeout : Int64) (outcome : RecvOutcome) :
    (impl.recvBytes timeout outcome).1 =
      (arrival impl (.recvBytes timeout outcome)).map Prod.fst := by
  simp only [arrival]
  obtain ⟨hnone, hrecv⟩ | ⟨buf, fromAddr, hopen, harrival, hbuf, -⟩ :=
    recvBytes_eq impl timeout outcome
  · rw [hrecv]
    rcases hnone with h | h <;> simp [h]
  · rw [hbuf, hopen, harrival]
    rfl

theorem some_mem_heard_iff {impl : Impl} {call : ChannelCall} {data : List UInt8} :
    some data ∈ heard impl call ↔ ∃ src, arrival impl call = some (data, src) := by
  cases call with
  | recvBytes timeout outcome =>
      rw [heard, List.mem_singleton, recvBytes_fst, eq_comm]
      simp
  | tryRecvBytes outcome =>
      rw [heard, List.mem_singleton, Impl.tryRecvBytes, recvBytes_fst, eq_comm]
      simp [arrival]
  | _ => simp [heard, arrival]

theorem send_of_true {impl : Impl} {data : List UInt8}
    {sendto : SockAddrIn → List UInt8 → Int} (h : (impl.send data sendto).1 = true) :
    impl.peerKnown = true ∧ (impl.send data sendto).2 = some (impl.peerAddr, data) := by
  cases hopen : !impl.isOpen || data.isEmpty with
  | true => simp [Impl.send, hopen] at h
  | false =>
      cases hknown : impl.peerKnown with
      | false => simp [Impl.send, hknown] at h
      | true => simp [Impl.send, hopen, hknown]

theorem peer_of_handed {impl : Impl} {call : ChannelCall} {dst : SockAddrIn}
    {data : List UInt8} (h : handed impl call = some (dst, data)) :
    impl.peerKnown = true ∧ impl.peerAddr = dst := by
  cases call with
  | send data sendto =>
      simp only [handed] at h
      split_ifs at h with hsent
      obtain ⟨hknown, hhanded⟩ := send_of_true hsent
      rw [hhanded] at h
      exact ⟨hknown, (Prod.mk.inj (Option.some.inj h)).1⟩
  | _ => cases h

/-- A channel with its history, and what its receive calls have returned. -/
structure Site where
  channel : Channel := {}
  heard : List (Option (List UInt8)) := []

/-- The channels, and the datagrams that have been handed to the network. -/
structure Network (ι : Type*) where
  site : ι → Site := fun _ => {}
  sent : List Datagram := []

variable {ι : Type*} [DecidableEq ι]

def Network.impl (s : Network ι) (i : ι) : Impl := (s.site i).channel.impl

def Site.step (inetPton : String → Option UInt32) (site : Site) (call : ChannelCall) : Site :=
  { channel := site.channel.step inetPton call
    heard := site.heard ++ DatagramNetwork.heard site.channel.impl call }

/-- One call at a site, whose datagrams carry its address. -/
def Network.act (inetPton : String → Option UInt32) (address : ι → SockAddrIn)
    (s : Network ι) (i : ι) (call : ChannelCall) : Network ι :=
  { site := Function.update s.site i ((s.site i).step inetPton call)
    sent := s.sent ++ ((handed (s.impl i) call).map fun m =>
      ⟨address i, m.1, m.2⟩).toList }

/-- What arrives in a call has been sent to the site, perhaps with other data. -/
def Deliverable (address : ι → SockAddrIn) (garbled : List UInt8 → List UInt8 → Prop)
    (s : Network ι) (i : ι) (call : ChannelCall) : Prop :=
  ∀ data src, arrival (s.impl i) call = some (data, src) →
    ∃ d ∈ s.sent, d.src = src ∧ d.dst = address i ∧ (data = d.data ∨ garbled d.data data)

inductive Step (inetPton : String → Option UInt32) (address : ι → SockAddrIn)
    (garbled : List UInt8 → List UInt8 → Prop) : Network ι → Network ι → Prop
  | act (s : Network ι) (i : ι) (call : ChannelCall) :
      Deliverable address garbled s i call →
      Step inetPton address garbled s (s.act inetPton address i call)

/-- The network in a run from the start, where no channel is bound. -/
def Reachable (inetPton : String → Option UInt32) (address : ι → SockAddrIn)
    (garbled : List UInt8 → List UInt8 → Prop) (s : Network ι) : Prop :=
  Relation.ReflTransGen (Step inetPton address garbled) {} s

/-- The network as endpoints that learn addresses. -/
def Network.world (s : Network ι) : World ι SockAddrIn where
  peer i := if (s.impl i).peerKnown then some (s.impl i).peerAddr else none
  given i := (s.site i).channel.targets
  sent := s.sent.map fun d => (d.src, d.dst)

end RovSdk.DatagramNetwork
