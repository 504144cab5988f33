import RovSdk.PeerHistory
import RovSdk.SerialPort

namespace RovSdk.ChannelDescriptors

open RovSdk.HandleUse
open RovSdk.PeerRule
open RovSdk.PeerHistory (impl_channel)

def openFd (fd : Int) : Option Int := if 0 ≤ fd then some fd else none

/-- What a receive does with the descriptor: `poll`, and then it reads if there is
something to read. -/
def receiveCalls (isOpen : Bool) (fd : Int) (polled : Int × Bool) : List (HandleEvent Int) :=
  if !isOpen then []
  else if polled.1 ≤ 0 then [.use fd]
  else if !polled.2 then [.use fd]
  else [.use fd, .use fd]

def closeCalls (fd : Int) : List (HandleEvent Int) :=
  if fd ≥ 0 then [.release fd] else []

theorem keeps_receiveCalls {isOpen : Bool} {fd : Int} (h : isOpen = true ↔ 0 ≤ fd)
    (polled : Int × Bool) : Keeps (openFd fd) (receiveCalls isOpen fd polled) (openFd fd) := by
  rw [receiveCalls]
  cases hopen : isOpen with
  | false => exact .nil _
  | true =>
      rw [openFd, if_pos (h.mp hopen)]
      split_ifs
      · exact .nil _
      · exact .use (.nil _)
      · exact .use (.nil _)
      · exact .use (.use (.nil _))

theorem keeps_closeCalls (fd : Int) : Keeps (openFd fd) (closeCalls fd) none := by
  rw [openFd, closeCalls]
  split_ifs with hfd
  · exact .release (.nil _)
  · exact .nil _

section Udp

variable {inetPton : String → Option UInt32} {impl : UdpChannel.Impl}

def udpCalls (impl : UdpChannel.Impl) : ChannelCall → List (HandleEvent Int)
  | .bind _ fd rc =>
      if impl.isOpen then []
      else if fd < 0 then []
      else if rc ≠ 0 then [.acquire fd, .use fd, .release fd]
      else [.acquire fd, .use fd]
  | .setPeer _ _ => []
  | .recvBytes timeout outcome =>
      receiveCalls impl.isOpen impl.sock (outcome.poll (UdpChannel.msToPoll timeout))
  | .tryRecvBytes outcome =>
      receiveCalls impl.isOpen impl.sock (outcome.poll (UdpChannel.msToPoll 0))
  | .send data _ =>
      if !impl.isOpen || data.isEmpty then []
      else if !impl.peerKnown then []
      else [.use impl.sock]

/-- A channel is open when it has a descriptor, and only then. -/
def UdpSound (impl : UdpChannel.Impl) : Prop := impl.isOpen = true ↔ 0 ≤ impl.sock

theorem sock_recvBytes (impl : UdpChannel.Impl) (timeout : Int64)
    (outcome : UdpChannel.RecvOutcome) :
    (impl.recvBytes timeout outcome).2.sock = impl.sock ∧
      (impl.recvBytes timeout outcome).2.isOpen = impl.isOpen := by
  simp only [UdpChannel.Impl.recvBytes]
  split_ifs
  · exact ⟨rfl, rfl⟩
  · exact ⟨rfl, rfl⟩
  · exact ⟨rfl, rfl⟩
  · rcases outcome.recvfrom with _ | ⟨buf, fromAddr⟩
    · exact ⟨rfl, rfl⟩
    · exact ⟨rfl, rfl⟩

theorem openFd_of_closed {isOpen : Bool} {fd : Int} (h : isOpen = true ↔ 0 ≤ fd)
    (hclosed : ¬isOpen = true) : openFd fd = none := if_neg fun hfd => hclosed (h.mpr hfd)

theorem udp_bind_keeps (h : UdpSound impl) (localPort : UInt16) (fd rc : Int) :
    UdpSound (impl.bind localPort fd rc).2 ∧
      Keeps (openFd impl.sock) (udpCalls impl (.bind localPort fd rc))
        (openFd (impl.bind localPort fd rc).2.sock) := by
  simp only [UdpChannel.Impl.bind, udpCalls]
  split_ifs with hopen hfd hrc
  · exact ⟨h, .nil _⟩
  · rw [openFd_of_closed h hopen, openFd, if_neg (Int.not_le.mpr hfd)]
    exact ⟨by simpa [UdpSound, hopen] using hfd, .nil _⟩
  · rw [openFd_of_closed h hopen]
    exact ⟨by simp [UdpSound, hopen], .acquire (.use (.release (.nil _)))⟩
  · rw [openFd_of_closed h hopen, openFd, if_pos (Int.not_lt.mp hfd)]
    exact ⟨by simpa [UdpSound] using hfd, .acquire (.use (.nil _))⟩

theorem sound_of_fields {impl' : UdpChannel.Impl} (h : UdpSound impl)
    (hsock : impl'.sock = impl.sock) (hopen : impl'.isOpen = impl.isOpen) : UdpSound impl' := by
  rw [UdpSound, hsock, hopen]
  exact h

theorem udp_keeps (inetPton : String → Option UInt32) (impl : UdpChannel.Impl)
    (call : ChannelCall) (h : UdpSound impl) :
    UdpSound (call.run inetPton impl) ∧
      Keeps (openFd impl.sock) (udpCalls impl call) (openFd (call.run inetPton impl).sock) := by
  cases call with
  | bind localPort fd rc => exact udp_bind_keeps h localPort fd rc
  | setPeer ip port =>
      simp only [ChannelCall.run, UdpChannel.Impl.setPeer, udpCalls]
      split_ifs
      · exact ⟨h, .nil _⟩
      · cases inetPton ip with
        | none => exact ⟨h, .nil _⟩
        | some sinAddr => exact ⟨h, .nil _⟩
  | recvBytes timeout outcome =>
      obtain ⟨hsock, hopen⟩ := sock_recvBytes impl timeout outcome
      refine ⟨sound_of_fields h hsock hopen, ?_⟩
      rw [ChannelCall.run, hsock]
      exact keeps_receiveCalls h _
  | tryRecvBytes outcome =>
      obtain ⟨hsock, hopen⟩ := sock_recvBytes impl 0 outcome
      refine ⟨sound_of_fields h hsock hopen, ?_⟩
      rw [ChannelCall.run, UdpChannel.Impl.tryRecvBytes, hsock]
      exact keeps_receiveCalls h _
  | send data sendto =>
      refine ⟨h, ?_⟩
      simp only [ChannelCall.run, udpCalls]
      cases hopen : impl.isOpen with
      | false => exact .nil _
      | true =>
          rw [openFd, if_pos (h.mp hopen)]
          split_ifs
          · exact .nil _
          · exact .nil _
          · exact .use (.nil _)

/-- Everything a `UdpChannel` does with descriptors, from its constructor to the end of its
destructor. -/
def udpLife (inetPton : String → Option UInt32) (calls : List ChannelCall) :
    List (HandleEvent Int) :=
  trace (fun impl (call : ChannelCall) => call.run inetPton impl) udpCalls {} calls ++
    closeCalls (channel inetPton calls).impl.sock

/-- Whatever is called on a `UdpChannel` and whatever the system answers: each socket is
closed once, and none is used before or after; and at any time the channel has a handle to
show just when it is open. -/
theorem udp_sockets_balanced (inetPton : String → Option UInt32) (calls : List ChannelCall) :
    Balanced (udpLife inetPton calls) ∧ UdpSound (channel inetPton calls).impl := by
  have hstart : UdpSound {} := by simp [UdpSound]
  obtain ⟨hsound, hkeeps⟩ := keeps_trace UdpSound (fun impl => openFd impl.sock)
    (udp_keeps inetPton) hstart calls
  rw [udpLife, impl_channel]
  exact ⟨(hkeeps.append (keeps_closeCalls _)).balanced, hsound⟩

end Udp

section Serial

open RovSdk.SerialChannel
open RovSdk.SerialPort

def portCalls (port : Port) : PortCall → List (HandleEvent Int)
  | .openDevice device baud outcome => (port.impl.openDevice device baud outcome).calls
  | .send data _ =>
      if !port.impl.isOpen || data.isEmpty then [] else [.use port.impl.fd]
  | .recvBytes timeout outcome =>
      receiveCalls port.impl.isOpen port.impl.fd (outcome.poll (msToPoll timeout))
  | .tryRecvBytes outcome =>
      receiveCalls port.impl.isOpen port.impl.fd (outcome.poll (msToPoll 0))

def PortSound (impl : Impl) : Prop := impl.isOpen = true ↔ 0 ≤ impl.fd

theorem openDevice_keeps {impl : Impl} (h : PortSound impl) (device : String) (baud : Int32)
    (outcome : OpenOutcome) :
    PortSound (impl.openDevice device baud outcome).impl ∧
      Keeps (openFd impl.fd) (impl.openDevice device baud outcome).calls
        (openFd (impl.openDevice device baud outcome).impl.fd) := by
  have heffect := openEffect impl device baud outcome
  generalize impl.openDevice device baud outcome = opened at heffect
  cases heffect with
  | already hopen => exact ⟨h, .nil _⟩
  | refused hopen => exact ⟨h, .nil _⟩
  | failed hopen hfd =>
      rw [openFd_of_closed h (by simp [hopen]), openFd, if_neg (Int.not_le.mpr hfd)]
      exact ⟨by simpa [PortSound, hopen] using hfd, .nil _⟩
  | closed hopen hcalls =>
      rw [openFd_of_closed h (by simp [hopen])]
      exact ⟨by simp [PortSound, hopen], hcalls⟩
  | opened tty hopen hfd hcalls =>
      rw [openFd_of_closed h (by simp [hopen]), openFd, if_pos hfd]
      exact ⟨by simpa [PortSound] using hfd, hcalls⟩

theorem port_keeps (port : Port) (call : PortCall) (h : PortSound port.impl) :
    PortSound (port.step call).impl ∧
      Keeps (openFd port.impl.fd) (portCalls port call) (openFd (port.step call).impl.fd) := by
  cases call with
  | openDevice device baud outcome => exact openDevice_keeps h device baud outcome
  | send data write =>
      refine ⟨h, ?_⟩
      simp only [Port.step, portCalls]
      cases hopen : port.impl.isOpen with
      | false => exact .nil _
      | true =>
          rw [openFd, if_pos (h.mp hopen)]
          split_ifs
          · exact .nil _
          · exact .use (.nil _)
  | recvBytes timeout outcome => exact ⟨h, keeps_receiveCalls h _⟩
  | tryRecvBytes outcome => exact ⟨h, keeps_receiveCalls h _⟩

def portLife (calls : List PortCall) : List (HandleEvent Int) :=
  trace Port.step portCalls {} calls ++ closeCalls (calls.foldl Port.step {}).impl.fd

/-- Whatever is called on a `SerialChannel` and whatever the system answers: each descriptor
is closed once, also where setting up the terminal fails half-way, and none is used before
or after; and at any time the channel has a handle to show just when it is open. -/
theorem serial_descriptors_balanced (calls : List PortCall) :
    Balanced (portLife calls) ∧ PortSound (calls.foldl Port.step {}).impl := by
  have hstart : PortSound ({} : Port).impl := by simp [PortSound]
  obtain ⟨hsound, hkeeps⟩ := keeps_trace (fun port : Port => PortSound port.impl)
    (fun port => openFd port.impl.fd) port_keeps hstart calls
  exact ⟨(hkeeps.append (keeps_closeCalls _)).balanced, hsound⟩

end Serial

end RovSdk.ChannelDescriptors
