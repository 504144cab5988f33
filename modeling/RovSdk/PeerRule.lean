import RovSdk.UdpChannel

namespace RovSdk.PeerRule

open RovSdk.UdpChannel

/-- A call on a channel with the outcomes of its socket calls. -/
inductive ChannelCall where
  | bind (localPort : UInt16) (fd rc : Int)
  | setPeer (ip : String) (port : UInt16)
  | recvBytes (timeout : Int64) (outcome : RecvOutcome)
  | tryRecvBytes (outcome : RecvOutcome)
  | send (data : List UInt8) (sendto : SockAddrIn → List UInt8 → Int)

namespace ChannelCall

variable (inetPton : String → Option UInt32) (impl : Impl)

def run : ChannelCall → Impl
  | bind localPort fd rc => (impl.bind localPort fd rc).2
  | setPeer ip port => (impl.setPeer inetPton ip port).2
  | recvBytes timeout outcome => (impl.recvBytes timeout outcome).2
  | tryRecvBytes outcome => (impl.tryRecvBytes outcome).2
  | send _ _ => impl

def target : ChannelCall → Option SockAddrIn
  | setPeer ip port =>
      if (impl.setPeer inetPton ip port).1 then
        (inetPton ip).map fun sinAddr => { sinAddr := sinAddr, sinPort := htons port }
      else none
  | _ => none

/-- The source of the datagram that a receive on an open channel is handed. -/
def source : ChannelCall → Option SockAddrIn
  | recvBytes timeout outcome =>
      if impl.isOpen then (outcome.arrival timeout).map Prod.snd else none
  | tryRecvBytes outcome =>
      if impl.isOpen then (outcome.arrival 0).map Prod.snd else none
  | _ => none

end ChannelCall

/-- A channel with its history: the addresses set, and the sources received from. -/
structure Channel where
  impl : Impl := {}
  targets : List SockAddrIn := []
  sources : List SockAddrIn := []

variable (inetPton : String → Option UInt32)

def Channel.step (s : Channel) (call : ChannelCall) : Channel :=
  { impl := call.run inetPton s.impl
    targets := s.targets ++ (call.target inetPton s.impl).toList
    sources := s.sources ++ (call.source s.impl).toList }

def channel (calls : List ChannelCall) : Channel :=
  calls.foldl (Channel.step inetPton) {}

/-- The last address set, or else the source of the first datagram received. -/
def Channel.documentedPeer (s : Channel) : Option SockAddrIn :=
  s.targets.getLast?.or s.sources.head?

/-- A send at this point goes where the documentation says. -/
def Channel.FollowsRule (s : Channel) : Prop :=
  s.impl.isOpen → ∀ data ≠ [], ∀ sendto,
    match s.documentedPeer with
    | some peer => (s.impl.send data sendto).2 = some (peer, data)
    | none => s.impl.send data sendto = (false, none)

/-- A call that receives a datagram while a peer is known receives it from this peer. -/
def Channel.FromPeer (s : Channel) (call : ChannelCall) : Prop :=
  ∀ source, call.source s.impl = some source → s.impl.peerKnown →
    source = s.impl.peerAddr

/-- A peer is known when the history names one, and only on an open channel. -/
structure Channel.Sound (s : Channel) : Prop where
  known : s.impl.peerKnown = s.documentedPeer.isSome
  isOpen : s.impl.peerKnown → s.impl.isOpen

/-- What a call can do to the peer, with the address it sets and the source it receives
from. -/
inductive Effect (impl impl' : Impl) : Option SockAddrIn → Option SockAddrIn → Prop
  | quiet : impl'.peerKnown = impl.peerKnown → impl'.peerAddr = impl.peerAddr →
      (impl.isOpen → impl'.isOpen) → Effect impl impl' none none
  | set {target : SockAddrIn} : impl'.isOpen → impl'.peerKnown →
      impl'.peerAddr = target → Effect impl impl' (some target) none
  | learned {source : SockAddrIn} : impl'.isOpen → impl'.peerKnown →
      impl'.peerAddr = source → Effect impl impl' none (some source)

theorem effect_setPeer (impl : Impl) (ip : String) (port : UInt16) :
    Effect impl (impl.setPeer inetPton ip port).2
      ((ChannelCall.setPeer ip port).target inetPton impl) none := by
  simp only [ChannelCall.target, Impl.setPeer]
  split
  · exact .quiet rfl rfl id
  next hopen =>
    cases hparse : inetPton ip with
    | none => exact .quiet rfl rfl id
    | some sinAddr => exact .set (by simpa using hopen) rfl rfl

theorem effect_recvBytes (impl : Impl) (timeout : Int64) (outcome : RecvOutcome) :
    Effect impl (impl.recvBytes timeout outcome).2 none
      ((ChannelCall.recvBytes timeout outcome).source impl) := by
  simp only [ChannelCall.source]
  obtain ⟨hnone, hrecv⟩ | ⟨buf, fromAddr, hopen, harrival, -, hopen', hknown, haddr⟩ :=
    recvBytes_eq impl timeout outcome
  · have hsource : (if impl.isOpen then (outcome.arrival timeout).map Prod.snd else none) =
        none := by
      rcases hnone with h | h <;> simp [h]
    rw [hrecv, hsource]
    exact .quiet rfl rfl id
  · rw [hopen, harrival]
    exact .learned hopen' hknown haddr

theorem effect_bind (impl : Impl) (localPort : UInt16) (fd rc : Int) :
    Effect impl (impl.bind localPort fd rc).2 none none := by
  simp only [Impl.bind]
  split_ifs with hopen
  · exact .quiet rfl rfl id
  · exact .quiet rfl rfl id
  · exact .quiet rfl rfl id
  · exact .quiet rfl rfl fun _ => rfl

theorem effect_run (impl : Impl) (call : ChannelCall) :
    Effect impl (call.run inetPton impl) (call.target inetPton impl) (call.source impl) := by
  cases call with
  | bind localPort fd rc => exact effect_bind impl localPort fd rc
  | setPeer ip port => exact effect_setPeer inetPton impl ip port
  | recvBytes timeout outcome => exact effect_recvBytes impl timeout outcome
  | tryRecvBytes outcome => exact effect_recvBytes impl 0 outcome
  | send data sendto => exact .quiet rfl rfl id

variable {inetPton} {s : Channel}

theorem Channel.Sound.step (h : s.Sound) (call : ChannelCall) :
    (s.step inetPton call).Sound := by
  have heffect := effect_run inetPton s.impl call
  simp only [Channel.step]
  cases htarget : call.target inetPton s.impl <;> cases hsource : call.source s.impl <;>
    rw [htarget, hsource] at heffect <;> cases heffect
  next hknown haddr hopen =>
    exact ⟨by simpa [Channel.documentedPeer, hknown] using h.known,
      fun hpeer => hopen (h.isOpen (hknown ▸ hpeer))⟩
  next hopen hknown haddr =>
    exact ⟨by simp [Channel.documentedPeer, hknown], fun _ => hopen⟩
  next hopen hknown haddr =>
    exact ⟨by simp [Channel.documentedPeer, hknown], fun _ => hopen⟩

theorem sound_channel (calls : List ChannelCall) : (channel inetPton calls).Sound := by
  have hfold : ∀ (calls : List ChannelCall) (s : Channel), s.Sound →
      (calls.foldl (Channel.step inetPton) s).Sound := by
    intro calls
    induction calls with
    | nil => exact fun s h => h
    | cons call calls ih => exact fun s h => ih _ (h.step call)
  exact hfold calls {} ⟨rfl, by simp⟩

theorem Channel.Sound.followsRule_iff (h : s.Sound) :
    s.FollowsRule ↔ ∀ peer, s.documentedPeer = some peer → s.impl.peerAddr = peer := by
  constructor
  · intro hrule peer hpeer
    have hknown : s.impl.peerKnown = true := by rw [h.known, hpeer]; rfl
    have hopen := h.isOpen hknown
    have hsend := hrule hopen [0] (by simp) fun _ _ => 0
    rw [hpeer] at hsend
    simp only [Impl.send, hopen, hknown] at hsend
    simpa using hsend
  · intro hstored hopen data hdata sendto
    have hempty : data.isEmpty = false := by simpa using hdata
    cases hpeer : s.documentedPeer with
    | none =>
        have hknown : s.impl.peerKnown = false := by rw [h.known, hpeer]; rfl
        simp [Impl.send, hknown]
    | some peer =>
        have hknown : s.impl.peerKnown = true := by rw [h.known, hpeer]; rfl
        simp [Impl.send, hopen, hknown, hempty, hstored peer hpeer]

/-- A call keeps the rule in force when it receives from the stored peer, and only then. -/
theorem Channel.Sound.followsRule_step_iff (h : s.Sound) (hrule : s.FollowsRule)
    (call : ChannelCall) :
    (s.step inetPton call).FollowsRule ↔ s.FromPeer call := by
  have heffect := effect_run inetPton s.impl call
  have hstored := h.followsRule_iff.mp hrule
  rw [(h.step call).followsRule_iff]
  simp only [Channel.step, Channel.FromPeer]
  cases htarget : call.target inetPton s.impl <;> cases hsource : call.source s.impl <;>
    rw [htarget, hsource] at heffect <;> cases heffect
  next hknown haddr hopen =>
    simpa [Channel.documentedPeer, haddr] using hstored
  next source hopen hknown haddr =>
    have hdoc : (s.targets ++ none.toList).getLast?.or
        (s.sources ++ (some source).toList).head? = s.documentedPeer.or (some source) := by
      rw [Option.toList_none, List.append_nil, List.head?_append, ← Option.or_assoc]
      rfl
    simp only [Channel.documentedPeer] at hdoc ⊢
    rw [hdoc, haddr]
    cases hpeer : s.documentedPeer with
    | none =>
        have hunknown : s.impl.peerKnown = false := by rw [h.known, hpeer]; rfl
        rw [Channel.documentedPeer] at hpeer
        simp [hpeer, hunknown]
    | some peer =>
        have hpeerKnown : s.impl.peerKnown = true := by rw [h.known, hpeer]; rfl
        have hpeerAddr := hstored peer hpeer
        rw [Channel.documentedPeer] at hpeer
        simp [hpeer, hpeerKnown, hpeerAddr]
  next target hopen hknown haddr =>
    simp [Channel.documentedPeer, haddr]

theorem channel_append (pre : List ChannelCall) (call : ChannelCall) :
    channel inetPton (pre ++ [call]) = (channel inetPton pre).step inetPton call := by
  rw [channel, List.foldl_append]
  rfl

/-- A run follows the rule throughout when each datagram it receives comes from the peer
stored at that moment, if there is one, and only then. -/
theorem follows_rule_iff_from_peer (inetPton : String → Option UInt32)
    (calls : List ChannelCall) :
    (∀ pre, pre <+: calls → (channel inetPton pre).FollowsRule) ↔
      ∀ pre call, pre ++ [call] <+: calls → (channel inetPton pre).FromPeer call := by
  constructor
  · intro hrule pre call hpre
    have hbefore := hrule pre ((List.prefix_append _ _).trans hpre)
    have hafter := hrule _ hpre
    rw [channel_append] at hafter
    exact ((sound_channel pre).followsRule_step_iff hbefore call).mp hafter
  · intro hpeer pre
    induction pre using List.reverseRecOn with
    | nil => exact fun _ hopen => absurd hopen (by simp [channel])
    | append_singleton pre call ih =>
        intro hpre
        have hbefore := ih ((List.prefix_append _ _).trans hpre)
        rw [channel_append]
        exact ((sound_channel pre).followsRule_step_iff hbefore call).mpr
          (hpeer pre call hpre)

def redirected : List ChannelCall :=
  [.bind 9000 3 0, .setPeer "127.0.0.1" 9001,
    .recvBytes 1000 ⟨fun _ => (1, true), some ([0], { sinAddr := 0x0200007F })⟩]

theorem redirected_breaks_rule :
    ((channel (fun _ => some 0x0100007F) redirected).impl.send [0x55] fun _ _ => 1) =
        (true, some ({ sinAddr := 0x0200007F }, [0x55])) ∧
      ((channel (fun _ => some 0x0100007F) redirected).documentedPeer =
        some { sinAddr := 0x0100007F, sinPort := htons 9001 }) ∧
      ¬∀ pre, pre <+: redirected →
        (channel (fun _ => some 0x0100007F) pre).FollowsRule := by
  have hpeer : (channel (fun _ => some 0x0100007F) redirected).documentedPeer =
      some { sinAddr := 0x0100007F, sinPort := htons 9001 } := by decide
  refine ⟨by decide, hpeer, fun hrule => ?_⟩
  have hsend := hrule redirected List.prefix_rfl rfl [0x55] (by simp) fun _ _ => 1
  rw [hpeer] at hsend
  exact absurd hsend (by decide)

end RovSdk.PeerRule
