import Mathlib.Data.Int.Basic
import RovSdk.ByteWords

/-!
`UdpChannel` on a POSIX system.  The outcomes of the socket calls are arguments, so
that a run of calls stands for any behaviour of the network.
-/

namespace RovSdk.UdpChannel

open RovSdk.ByteWords

/-- `sockaddr_in`; both fields are in network byte order. -/
structure SockAddrIn where
  sinAddr : UInt32 := 0
  sinPort : UInt16 := 0
  deriving DecidableEq, Repr

structure Impl where
  sock : Int := -1
  isOpen : Bool := false
  localPort : UInt16 := 0
  peerKnown : Bool := false
  peerIp : String := ""
  peerPort : UInt16 := 0
  peerAddr : SockAddrIn := {}
  deriving DecidableEq, Repr

def htons (v : UInt16) : UInt16 := word16 (highByte v) (lowByte v)

def ntohs (v : UInt16) : UInt16 := word16 (highByte v) (lowByte v)

/-- `inet_ntop` for `AF_INET`, which succeeds with a buffer of `INET_ADDRSTRLEN`. -/
def inetNtop (addr : UInt32) : Option String :=
  let octets := [lowByte (lowHalf addr), highByte (lowHalf addr),
    lowByte (highHalf addr), highByte (highHalf addr)]
  some (".".intercalate (octets.map fun octet => toString octet.toNat))

def intMax : Int64 := 2147483647

def msToPoll (timeout : Int64) : Int32 :=
  if timeout ≤ 0 then 0
  else if timeout > intMax then intMax.toInt32
  else timeout.toInt32

theorem toInt_msToPoll {timeout : Int64} (h : 0 < timeout) :
    (msToPoll timeout).toInt = min timeout.toInt 2147483647 := by
  have hintMax : intMax.toInt = 2147483647 := by decide
  rw [msToPoll, if_neg (Int64.not_le.mpr h)]
  rw [Int64.lt_iff_toInt_lt, Int64.toInt_zero] at h
  split_ifs with hlarge
  · rw [gt_iff_lt, Int64.lt_iff_toInt_lt] at hlarge
    rw [Int64.toInt_toInt32, hintMax, Int.bmod_eq_of_le (by decide) (by decide)]
    omega
  · rw [gt_iff_lt, Int64.lt_iff_toInt_lt, hintMax] at hlarge
    rw [Int64.toInt_toInt32, Int.bmod_eq_of_le (by omega) (by omega)]
    omega

/-- `UdpChannel::bind`, where `socket` returns `fd` and `bind` returns `rc`. -/
def Impl.bind (impl : Impl) (localPort : UInt16) (fd rc : Int) : Bool × Impl :=
  if impl.isOpen then (true, impl)
  else if fd < 0 then (false, { impl with sock := fd })
  else if rc ≠ 0 then (false, { impl with sock := -1 })
  else (true, { impl with sock := fd, isOpen := true, localPort := localPort })

/-- `UdpChannel::set_peer` over the system's `inet_pton`. -/
def Impl.setPeer (inetPton : String → Option UInt32) (impl : Impl) (ip : String)
    (port : UInt16) : Bool × Impl :=
  if !impl.isOpen then (false, impl)
  else
    match inetPton ip with
    | none => (false, impl)
    | some sinAddr =>
        (true, { impl with
          peerAddr := { sinAddr := sinAddr, sinPort := htons port }
          peerIp := ip
          peerPort := port
          peerKnown := true })

/-- `UdpChannel::send`: the result, and the datagram handed to `sendto`, if any. -/
def Impl.send (impl : Impl) (data : List UInt8)
    (sendto : SockAddrIn → List UInt8 → Int) : Bool × Option (SockAddrIn × List UInt8) :=
  if !impl.isOpen || data.isEmpty then (false, none)
  else if !impl.peerKnown then (false, none)
  else (sendto impl.peerAddr data == data.length, some (impl.peerAddr, data))

/-- The outcomes of one receive: `poll` returns a count and whether `POLLIN` is set,
`recvfrom` a datagram with its source or an error. -/
structure RecvOutcome where
  poll : Int32 → Int × Bool
  recvfrom : Option (List UInt8 × SockAddrIn)

def Impl.recvBytes (impl : Impl) (timeout : Int64) (outcome : RecvOutcome) :
    Option (List UInt8) × Impl :=
  if !impl.isOpen then (none, impl)
  else
    let polled := outcome.poll (msToPoll timeout)
    if polled.1 ≤ 0 then (none, impl)
    else if !polled.2 then (none, impl)
    else
      match outcome.recvfrom with
      | none => (none, impl)
      | some (buf, fromAddr) =>
          -- the peer is stored whether or not one is known already
          match inetNtop fromAddr.sinAddr with
          | none => (some buf, impl)
          | some ip =>
              (some buf, { impl with
                peerAddr := fromAddr
                peerIp := ip
                peerPort := ntohs fromAddr.sinPort
                peerKnown := true })

theorem recvBytes_of_poll_zero {outcome : RecvOutcome} (impl : Impl) {timeout : Int64}
    (h : (outcome.poll (msToPoll timeout)).1 = 0) :
    impl.recvBytes timeout outcome = (none, impl) := by
  simp [Impl.recvBytes, h]

def Impl.tryRecvBytes (impl : Impl) (outcome : RecvOutcome) :
    Option (List UInt8) × Impl :=
  impl.recvBytes 0 outcome

/-- The datagram with its source that the system hands over, if any. -/
def RecvOutcome.arrival (outcome : RecvOutcome) (timeout : Int64) :
    Option (List UInt8 × SockAddrIn) :=
  let polled := outcome.poll (msToPoll timeout)
  if polled.1 ≤ 0 ∨ polled.2 = false then none else outcome.recvfrom

/-- A receive on an open channel returns the datagram that arrives and stores its source
as the peer; otherwise it changes nothing. -/
theorem recvBytes_eq (impl : Impl) (timeout : Int64) (outcome : RecvOutcome) :
    ((impl.isOpen = false ∨ outcome.arrival timeout = none) ∧
        impl.recvBytes timeout outcome = (none, impl)) ∨
      ∃ buf fromAddr, impl.isOpen = true ∧
        outcome.arrival timeout = some (buf, fromAddr) ∧
        (impl.recvBytes timeout outcome).1 = some buf ∧
        (impl.recvBytes timeout outcome).2.isOpen = true ∧
        (impl.recvBytes timeout outcome).2.peerKnown = true ∧
        (impl.recvBytes timeout outcome).2.peerAddr = fromAddr := by
  cases hopen : impl.isOpen with
  | false => exact .inl ⟨.inl rfl, by simp [Impl.recvBytes, hopen]⟩
  | true =>
      simp only [RecvOutcome.arrival, Impl.recvBytes, hopen]
      by_cases hrc : (outcome.poll (msToPoll timeout)).1 ≤ 0
      · simp [hrc]
      · cases hpollin : (outcome.poll (msToPoll timeout)).2 with
        | false => simp
        | true =>
            rcases outcome.recvfrom with _ | ⟨buf, fromAddr⟩
            · simp [hrc]
            · simp [hrc, inetNtop]

end RovSdk.UdpChannel
