import RovSdk.PeerRule

namespace RovSdk.PeerHistory

open RovSdk.ByteWords
open RovSdk.UdpChannel
open RovSdk.PeerRule

variable {inetPton : String → Option UInt32}

def named (inetPton : String → Option UInt32) (impl : Impl) (call : ChannelCall) :
    Option SockAddrIn :=
  (call.target inetPton impl).or (call.source impl)

def namedFrom (inetPton : String → Option UInt32) : Impl → List ChannelCall → List SockAddrIn
  | _, [] => []
  | impl, call :: calls =>
      (named inetPton impl call).toList ++ namedFrom inetPton (call.run inetPton impl) calls

def knownPeer (impl : Impl) : Option SockAddrIn :=
  if impl.peerKnown then some impl.peerAddr else none

theorem knownPeer_of_quiet {impl impl' : Impl} (hknown : impl'.peerKnown = impl.peerKnown)
    (haddr : impl'.peerAddr = impl.peerAddr) : knownPeer impl' = knownPeer impl := by
  rw [knownPeer, knownPeer, hknown, haddr]

theorem knownPeer_run (impl : Impl) (call : ChannelCall) :
    knownPeer (call.run inetPton impl) = (named inetPton impl call).or (knownPeer impl) := by
  have heffect := effect_run inetPton impl call
  rw [named]
  cases htarget : call.target inetPton impl <;> cases hsource : call.source impl <;>
    rw [htarget, hsource] at heffect <;> cases heffect
  next hknown haddr hopen => exact knownPeer_of_quiet hknown haddr
  next hopen hknown haddr =>
    rw [knownPeer, if_pos hknown, haddr]
    rfl
  next hopen hknown haddr =>
    rw [knownPeer, if_pos hknown, haddr]
    rfl

theorem knownPeer_foldl (impl : Impl) (calls : List ChannelCall) :
    knownPeer (calls.foldl (fun impl call => call.run inetPton impl) impl) =
      (namedFrom inetPton impl calls).getLast?.or (knownPeer impl) := by
  induction calls generalizing impl with
  | nil => rfl
  | cons call calls ih =>
      rw [List.foldl_cons, ih, knownPeer_run, namedFrom]
      cases named inetPton impl call with
      | none => rfl
      | some address =>
          rw [Option.toList_some, List.singleton_append, List.getLast?_cons]
          cases (namedFrom inetPton (call.run inetPton impl) calls).getLast? <;> rfl

theorem impl_channel (calls : List ChannelCall) :
    (channel inetPton calls).impl =
      calls.foldl (fun impl call => call.run inetPton impl) {} := by
  have hfold : ∀ (calls : List ChannelCall) (s : Channel),
      (calls.foldl (Channel.step inetPton) s).impl =
        calls.foldl (fun impl call => call.run inetPton impl) s.impl := by
    intro calls
    induction calls with
    | nil => exact fun s => rfl
    | cons call calls ih => exact fun s => ih _
  exact hfold calls {}

theorem knownPeer_channel (calls : List ChannelCall) :
    knownPeer (channel inetPton calls).impl = (namedFrom inetPton {} calls).getLast? := by
  rw [impl_channel, knownPeer_foldl]
  exact Option.or_none

theorem ntohs_htons (port : UInt16) : ntohs (htons port) = port := by
  rw [ntohs, htons, lowByte_word16, highByte_word16, word16_lowByte_highByte]

/-- The port kept as a number is the one in the address. -/
def PortAgrees (impl : Impl) : Prop :=
  impl.peerKnown → impl.peerPort = ntohs impl.peerAddr.sinPort

theorem portAgrees_recvBytes {impl : Impl} (h : PortAgrees impl) (timeout : Int64)
    (outcome : RecvOutcome) : PortAgrees (impl.recvBytes timeout outcome).2 := by
  simp only [Impl.recvBytes]
  split_ifs
  · exact h
  · exact h
  · exact h
  · rcases outcome.recvfrom with _ | ⟨buf, fromAddr⟩
    · exact h
    · exact fun _ => rfl

theorem portAgrees_run {impl : Impl} (h : PortAgrees impl) (call : ChannelCall) :
    PortAgrees (call.run inetPton impl) := by
  cases call with
  | bind localPort fd rc =>
      simp only [ChannelCall.run, Impl.bind]
      split_ifs
      all_goals exact h
  | setPeer ip port =>
      simp only [ChannelCall.run, Impl.setPeer]
      split_ifs
      · exact h
      · cases inetPton ip with
        | none => exact h
        | some sinAddr => exact fun _ => (ntohs_htons port).symm
  | recvBytes timeout outcome => exact portAgrees_recvBytes h timeout outcome
  | tryRecvBytes outcome => exact portAgrees_recvBytes h 0 outcome
  | send data sendto => exact h

theorem portAgrees_channel (calls : List ChannelCall) :
    PortAgrees (channel inetPton calls).impl := by
  rw [impl_channel]
  exact List.foldlRecOn calls _ (by simp [PortAgrees]) fun _ h call _ => portAgrees_run h call

/-- After any run, a send goes to the address named last, under the port that the channel
keeps for it, and fails where none has been named. -/
theorem sends_to_last_named (inetPton : String → Option UInt32) (calls : List ChannelCall)
    (data : List UInt8) (sendto : SockAddrIn → List UInt8 → Int) :
    (∀ peer ∈ (namedFrom inetPton {} calls).getLast?,
        (channel inetPton calls).impl.peerPort = ntohs peer.sinPort) ∧
      (channel inetPton calls).impl.send data sendto =
        match (namedFrom inetPton {} calls).getLast? with
        | some peer =>
            if data.isEmpty then (false, none)
            else (sendto peer data == data.length, some (peer, data))
        | none => (false, none) := by
  have hsound : (channel inetPton calls).Sound := sound_channel calls
  have hport : PortAgrees (channel inetPton calls).impl := portAgrees_channel calls
  have hpeer : knownPeer (channel inetPton calls).impl = _ := knownPeer_channel calls
  generalize (channel inetPton calls) = s at hsound hport hpeer
  rw [← hpeer, knownPeer]
  cases hknown : s.impl.peerKnown with
  | false => simp [Impl.send, hknown]
  | true =>
      have hopen := hsound.isOpen hknown
      refine ⟨?_, ?_⟩
      · simpa using hport hknown
      · simp only [Impl.send, hopen, hknown]
        cases data.isEmpty <;> rfl

end RovSdk.PeerHistory
