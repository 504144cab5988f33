import RovSdk.HandleUse
import RovSdk.UdpChannel

/-!
`SerialChannel` on a POSIX system, with the outcomes of the calls to the system as
arguments.  The constants of `termios` are those of Linux.
-/

namespace RovSdk.SerialChannel

open RovSdk.HandleUse

structure Impl where
  fd : Int := -1
  isOpen : Bool := false
  deriving DecidableEq, Repr

/-- Word for word the `ms_to_poll` of `UdpChannel`. -/
def msToPoll (timeout : Int64) : Int32 := UdpChannel.msToPoll timeout

/-- `poll` returns a count and whether `POLLIN` is set; `read` stores no more bytes than
it is asked for, or returns an error. -/
structure RecvOutcome where
  poll : Int32 → Int × Bool
  read : (count : Nat) → Option {bytes : List UInt8 // bytes.length ≤ count}

def recvBufferSize : Nat := 4096

def Impl.recvBytes (impl : Impl) (timeout : Int64) (outcome : RecvOutcome) :
    Option (List UInt8) :=
  if !impl.isOpen then none
  else
    let polled := outcome.poll (msToPoll timeout)
    if polled.1 ≤ 0 then none
    else if !polled.2 then none
    else
      match outcome.read recvBufferSize with
      | none => none
      | some bytes => if bytes.1.isEmpty then none else some bytes.1

theorem length_recvBytes {impl : Impl} {timeout : Int64} {outcome : RecvOutcome}
    {bytes : List UInt8} (h : impl.recvBytes timeout outcome = some bytes) :
    bytes.length ≤ recvBufferSize := by
  simp only [Impl.recvBytes] at h
  split_ifs at h
  split at h
  next => simp at h
  next read hread =>
    split_ifs at h
    rw [← Option.some.inj h]
    exact read.2

theorem recvBytes_of_poll_zero {outcome : RecvOutcome} (impl : Impl) {timeout : Int64}
    (h : (outcome.poll (msToPoll timeout)).1 = 0) : impl.recvBytes timeout outcome = none := by
  simp [Impl.recvBytes, h]

def Impl.tryRecvBytes (impl : Impl) (outcome : RecvOutcome) : Option (List UInt8) :=
  impl.recvBytes 0 outcome

/-- `SerialChannel::send`: the result, and the bytes handed to `write`, if any. -/
def Impl.send (impl : Impl) (data : List UInt8) (write : List UInt8 → Int) :
    Bool × Option (List UInt8) :=
  if !impl.isOpen || data.isEmpty then (false, none)
  else (write data == data.length, some data)

def Impl.nativeHandle (impl : Impl) : Int := impl.fd

def B9600 : Int32 := 0x000D
def B19200 : Int32 := 0x000E
def B38400 : Int32 := 0x000F
def B57600 : Int32 := 0x1001
def B115200 : Int32 := 0x1002
def B230400 : Int32 := 0x1003
def B460800 : Int32 := 0x1004
def B921600 : Int32 := 0x1007

def baudToConstant (baud : Int32) : Int32 :=
  if baud = 9600 then B9600
  else if baud = 19200 then B19200
  else if baud = 38400 then B38400
  else if baud = 57600 then B57600
  else if baud = 115200 then B115200
  else if baud = 230400 then B230400
  else if baud = 460800 then B460800
  else if baud = 921600 then B921600
  else -1

structure Termios where
  cIflag : UInt32 := 0
  cOflag : UInt32 := 0
  cCflag : UInt32 := 0
  cLflag : UInt32 := 0
  cCc : Vector UInt8 32 := .replicate 32 0
  deriving DecidableEq, Repr

def IGNBRK : UInt32 := 0x1
def BRKINT : UInt32 := 0x2
def PARMRK : UInt32 := 0x8
def ISTRIP : UInt32 := 0x20
def INLCR : UInt32 := 0x40
def IGNCR : UInt32 := 0x80
def ICRNL : UInt32 := 0x100
def IXON : UInt32 := 0x400
def IXANY : UInt32 := 0x800
def IXOFF : UInt32 := 0x1000
def OPOST : UInt32 := 0x1
def CSIZE : UInt32 := 0x30
def CS8 : UInt32 := 0x30
def CSTOPB : UInt32 := 0x40
def CREAD : UInt32 := 0x80
def PARENB : UInt32 := 0x100
def CLOCAL : UInt32 := 0x800
def CBAUD : UInt32 := 0x100F
def CRTSCTS : UInt32 := 0x80000000
def IBAUD0 : UInt32 := 0x80000000
def ISIG : UInt32 := 0x1
def ICANON : UInt32 := 0x2
def ECHO : UInt32 := 0x8
def ECHOE : UInt32 := 0x10
def VTIME : Fin 32 := 5
def VMIN : Fin 32 := 6

def setOutputSpeed (tty : Termios) (speed : UInt32) : Termios :=
  { tty with cCflag := (tty.cCflag &&& ~~~CBAUD) ||| speed }

/-- `cfsetispeed` for a speed other than zero, which goes to the same bits. -/
def setInputSpeed (tty : Termios) (speed : UInt32) : Termios :=
  { tty with
    cIflag := tty.cIflag &&& ~~~IBAUD0
    cCflag := (tty.cCflag &&& ~~~CBAUD) ||| speed }

/-- The settings that `open` applies, from those that the terminal has. -/
def rawSettings (tty : Termios) (bconst : Int32) : Termios :=
  let tty := setOutputSpeed tty bconst.toUInt32
  let tty := setInputSpeed tty bconst.toUInt32
  let tty := { tty with cCflag := tty.cCflag &&& ~~~(PARENB ||| CSTOPB ||| CSIZE ||| CRTSCTS) }
  let tty := { tty with cCflag := tty.cCflag ||| (CS8 ||| CREAD ||| CLOCAL) }
  let tty := { tty with cLflag := tty.cLflag &&& ~~~(ICANON ||| ECHO ||| ECHOE ||| ISIG) }
  let tty := { tty with
    cIflag := tty.cIflag &&& ~~~(IXON ||| IXOFF ||| IXANY ||| IGNBRK ||| BRKINT ||| PARMRK |||
      ISTRIP ||| INLCR ||| IGNCR ||| ICRNL) }
  let tty := { tty with cOflag := tty.cOflag &&& ~~~OPOST }
  { tty with cCc := (tty.cCc.set VMIN 0).set VTIME 0 }

/-- What the system answers in one `open`: the new descriptor or an error, its flags or an
error, its settings if it is a terminal, and whether it takes new ones. -/
structure OpenOutcome where
  openDevice : String → Int
  getFlags : Int
  tcgetattr : Option Termios
  tcsetattr : Termios → Int

/-- The result of `open`: what it returns, the calls that it has made on descriptors, and
the settings that it has applied, if any. -/
structure Opened where
  result : Bool
  impl : Impl
  calls : List (HandleEvent Int) := []
  applied : Option Termios := none

def Impl.openDevice (impl : Impl) (device : String) (baud : Int32) (outcome : OpenOutcome) :
    Opened :=
  if impl.isOpen then { result := true, impl := impl }
  else
    let bconst := baudToConstant baud
    if bconst < 0 then { result := false, impl := impl }
    else
      let fd := outcome.openDevice device
      let impl := { impl with fd := fd }
      if fd < 0 then { result := false, impl := impl }
      else
        -- O_NONBLOCK is cleared where the flags can be read
        let calls := [.acquire fd, .use fd] ++ if outcome.getFlags ≥ 0 then [.use fd] else []
        match outcome.tcgetattr with
        | none =>
            { result := false, impl := { impl with fd := -1 },
              calls := calls ++ [.use fd, .release fd] }
        | some tty =>
            let tty := rawSettings tty bconst
            if outcome.tcsetattr tty ≠ 0 then
              { result := false, impl := { impl with fd := -1 },
                calls := calls ++ [.use fd, .use fd, .release fd] }
            else
              { result := true, impl := { impl with isOpen := true },
                calls := calls ++ [.use fd, .use fd, .use fd], applied := some tty }

end RovSdk.SerialChannel
