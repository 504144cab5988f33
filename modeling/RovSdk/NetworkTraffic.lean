import RovSdk.DatagramNetwork
import RovSdk.Packets
import RovSdk.PeerHistory

namespace RovSdk.NetworkTraffic

open RovSdk.Packets
open RovSdk.UdpChannel
open RovSdk.PeerRule
open RovSdk.PeerHistory
open RovSdk.AddressLearning
open RovSdk.DatagramNetwork

variable {ι : Type*} [DecidableEq ι] {inetPton : String → Option UInt32}
  {address : ι → SockAddrIn} {garbled : List UInt8 → List UInt8 → Prop} {s : Network ι}

theorem impl_act (s : Network ι) (i : ι) (call : ChannelCall) :
    (s.act inetPton address i call).impl =
      Function.update s.impl i (call.run inetPton (s.impl i)) := by
  funext k
  rcases eq_or_ne k i with rfl | hne
  · simp [Network.act, Network.impl, Site.step, Channel.step]
  · simp [Network.act, Network.impl, hne]

theorem targets_act (s : Network ι) (i k : ι) (call : ChannelCall) :
    ((s.act inetPton address i call).site k).channel.targets =
      if k = i then (s.site i).channel.targets ++ (call.target inetPton (s.impl i)).toList
      else (s.site k).channel.targets := by
  rcases eq_or_ne k i with rfl | hne
  · simp [Network.act, Network.impl, Site.step, Channel.step]
  · simp [Network.act, hne]

omit [DecidableEq ι] in
theorem world_peer (s : Network ι) (i : ι) : s.world.peer i = knownPeer (s.impl i) := rfl

theorem peer_act (address : ι → SockAddrIn) (s : Network ι) (i : ι) (call : ChannelCall) :
    (s.act inetPton address i call).world.peer =
      Function.update s.world.peer i
        ((named inetPton (s.impl i) call).or (s.world.peer i)) := by
  funext k
  rcases eq_or_ne k i with rfl | hne
  · rw [world_peer, impl_act, Function.update_self, Function.update_self, knownPeer_run]
    rfl
  · rw [world_peer, impl_act, Function.update_of_ne hne, Function.update_of_ne hne]
    rfl

theorem given_act (address : ι → SockAddrIn) (s : Network ι) (i : ι) (call : ChannelCall) :
    (s.act inetPton address i call).world.given =
      Function.update s.world.given i
        (s.world.given i ++ (call.target inetPton (s.impl i)).toList) := by
  funext k
  rcases eq_or_ne k i with rfl | hne
  · simp [Network.world, targets_act]
  · simp [Network.world, targets_act, hne]

theorem sent_act (s : Network ι) (i : ι) (call : ChannelCall) :
    (s.act inetPton address i call).world.sent =
      s.world.sent ++ ((handed (s.impl i) call).map fun m => (address i, m.1)).toList := by
  simp only [Network.world, Network.act, List.map_append, List.append_cancel_left_eq]
  cases handed (s.impl i) call <;> rfl

theorem world_act (s : Network ι) (i : ι) (call : ChannelCall) :
    (s.act inetPton address i call).world =
      { peer := Function.update s.world.peer i
          ((named inetPton (s.impl i) call).or (s.world.peer i))
        given := Function.update s.world.given i
          (s.world.given i ++ (call.target inetPton (s.impl i)).toList)
        sent := s.world.sent ++
          ((handed (s.impl i) call).map fun m => (address i, m.1)).toList } := by
  rw [← peer_act address, ← given_act address, ← sent_act]

theorem named_of_handed (inetPton : String → Option UInt32) {impl : Impl} {call : ChannelCall}
    {m : SockAddrIn × List UInt8} (h : handed impl call = some m) :
    call.target inetPton impl = none ∧ call.source impl = none := by
  cases call with
  | send data sendto => exact ⟨rfl, rfl⟩
  | _ => cases h

/-- Each call at a site is a step of the endpoint, or none. -/
theorem act_refines {i : ι} {call : ChannelCall}
    (hdeliver : Deliverable address garbled s i call) :
    Relation.ReflTransGen (AddressLearning.Step address) s.world
      (s.act inetPton address i call).world := by
  rw [world_act, named]
  cases hhanded : handed (s.impl i) call with
  | some m =>
      obtain ⟨htarget, hsource⟩ := named_of_handed inetPton hhanded
      obtain ⟨hknown, haddr⟩ := peer_of_handed hhanded
      have hpeer : s.world.peer i = some m.1 := by
        rw [world_peer, knownPeer, if_pos hknown, haddr]
      rw [htarget, hsource, Option.or_none, Option.none_or, Option.toList_none,
        List.append_nil, Function.update_eq_self, Function.update_eq_self]
      exact .single (.send s.world hpeer)
  | none =>
      rw [Option.map_none, Option.toList_none, List.append_nil]
      cases htarget : call.target inetPton (s.impl i) with
      | some target =>
          rw [Option.some_or, Option.some_or]
          exact .single (.give s.world i target)
      | none =>
          rw [source_eq, Option.none_or, Option.toList_none, List.append_nil,
            Function.update_eq_self]
          cases harrival : arrival (s.impl i) call with
          | none =>
              rw [Option.map_none, Option.none_or, Function.update_eq_self]
          | some arrived =>
              obtain ⟨d, hd, hsrc, hdst, -⟩ := hdeliver arrived.1 arrived.2 harrival
              have hmem : (arrived.2, address i) ∈ s.world.sent :=
                List.mem_map.mpr ⟨d, hd, by rw [hsrc, hdst]⟩
              rw [Option.map_some, Option.some_or]
              exact .single (.hear s.world hmem)

theorem reachable_world (h : Reachable inetPton address garbled s) :
    Relation.ReflTransGen (AddressLearning.Step address) {} s.world := by
  induction h with
  | refl => exact .refl
  | tail _ hstep ih =>
      cases hstep with
      | act i call hdeliver => exact ih.trans (act_refines hdeliver)

def parse : String → Option UInt32 := fun _ => some 0x0100007F

def loopback (i : Bool) : SockAddrIn := ⟨0x0100007F, htons (if i then 9091 else 9090)⟩

/-- One site names the other and sends it a command; the other echoes it. -/
def commanded : List (Bool × ChannelCall) :=
  [(true, .bind 9091 3 0), (true, .setPeer "127.0.0.1" 9090),
    (true, .send (encodeCmd {}) fun _ data => data.length), (false, .bind 9090 4 0),
    (false, .recvBytes 1000 ⟨fun _ => (1, true), some (encodeCmd {}, loopback true)⟩),
    (false, .send (encodeCmd {}) fun _ data => data.length)]

def commandedNetwork : Network Bool :=
  commanded.foldl (fun s entry => s.act parse loopback entry.1 entry.2) {}

theorem sent_commanded : commandedNetwork.sent =
    [⟨loopback true, loopback false, encodeCmd {}⟩,
      ⟨loopback false, loopback true, encodeCmd {}⟩] := rfl

theorem reachable_commanded (garbled : List UInt8 → List UInt8 → Prop) :
    Reachable parse loopback garbled commandedNetwork := by
  have hquiet : ∀ (s : Network Bool) i call, arrival (s.impl i) call = none →
      Deliverable loopback garbled s i call := by
    intro s i call hnone data src harrival
    rw [hnone] at harrival
    cases harrival
  refine .tail (.tail (.tail (.tail (.tail (.tail .refl (.act _ true _ ?_)) (.act _ true _ ?_))
    (.act _ true _ ?_)) (.act _ false _ ?_)) (.act _ false _ ?_)) (.act _ false _ ?_)
  · exact hquiet _ _ _ rfl
  · exact hquiet _ _ _ rfl
  · exact hquiet _ _ _ rfl
  · exact hquiet _ _ _ rfl
  · intro data src harrival
    obtain ⟨rfl, rfl⟩ := Prod.mk.inj (Option.some.inj harrival.symm)
    exact ⟨⟨loopback true, loopback false, encodeCmd {}⟩, List.mem_singleton.mpr rfl, rfl, rfl,
      .inl rfl⟩
  · exact hquiet _ _ _ rfl

/-- Where each `set_peer` kept to its own side of a boundary between addresses, no datagram
has crossed it. -/
theorem traffic_separated (h : Reachable inetPton address garbled s) {group : Set SockAddrIn}
    (hgroup : ∀ i, ∀ target ∈ (s.site i).channel.targets, address i ∈ group ↔ target ∈ group) :
    ∀ d ∈ s.sent, d.src ∈ group ↔ d.dst ∈ group := by
  intro d hd
  have hintroduced := (introducing_of_reachable (reachable_world h)).sent (d.src, d.dst)
    (List.mem_map.mpr ⟨d, hd, rfl⟩)
  exact hintroduced.mem_iff hgroup

end RovSdk.NetworkTraffic
