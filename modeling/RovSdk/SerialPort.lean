import RovSdk.SerialChannel

namespace RovSdk.SerialPort

open RovSdk.HandleUse
open RovSdk.SerialChannel

/-- A call on a `SerialChannel` with the outcomes of its calls to the system. -/
inductive PortCall where
  | openDevice (device : String) (baud : Int32) (outcome : OpenOutcome)
  | send (data : List UInt8) (write : List UInt8 → Int)
  | recvBytes (timeout : Int64) (outcome : RecvOutcome)
  | tryRecvBytes (outcome : RecvOutcome)

/-- A channel, with the settings that it has last applied to its terminal. -/
structure Port where
  impl : Impl := {}
  settings : Option Termios := none

def Port.step (port : Port) : PortCall → Port
  | .openDevice device baud outcome =>
      let opened := port.impl.openDevice device baud outcome
      { impl := opened.impl, settings := opened.applied.or port.settings }
  | _ => port

inductive OpenEffect (impl : Impl) : Opened → Prop
  | already : impl.isOpen = true → OpenEffect impl { result := true, impl := impl }
  | refused : impl.isOpen = false → OpenEffect impl { result := false, impl := impl }
  | failed {fd : Int} : impl.isOpen = false → fd < 0 →
      OpenEffect impl { result := false, impl := { impl with fd := fd } }
  | closed {calls : List (HandleEvent Int)} : impl.isOpen = false → Keeps none calls none →
      OpenEffect impl { result := false, impl := { impl with fd := -1 }, calls := calls }
  | opened {fd : Int} {calls : List (HandleEvent Int)} {baud : Int32} (tty : Termios) :
      impl.isOpen = false → 0 ≤ fd → Keeps none calls (some fd) → ¬baudToConstant baud < 0 →
      OpenEffect impl
        { result := true, impl := { fd := fd, isOpen := true }, calls := calls,
          applied := some (rawSettings tty (baudToConstant baud)) }

theorem keeps_firstCalls (fd flags : Int) :
    Keeps none ([.acquire fd, .use fd] ++ if flags ≥ 0 then [.use fd] else []) (some fd) := by
  refine .acquire (.use ?_)
  split_ifs
  · exact .use (.nil _)
  · exact .nil _

theorem openEffect (impl : Impl) (device : String) (baud : Int32) (outcome : OpenOutcome) :
    OpenEffect impl (impl.openDevice device baud outcome) := by
  simp only [Impl.openDevice]
  cases hopen : impl.isOpen with
  | true => exact .already hopen
  | false =>
      rw [if_neg (by simp)]
      by_cases hbaud : baudToConstant baud < 0
      · rw [if_pos hbaud]
        exact .refused hopen
      rw [if_neg hbaud]
      have hfirst := keeps_firstCalls (outcome.openDevice device) outcome.getFlags
      by_cases hfd : outcome.openDevice device < 0
      · rw [if_pos hfd]
        have heffect := OpenEffect.failed hopen hfd
        rwa [hopen] at heffect
      rw [if_neg hfd]
      cases outcome.tcgetattr with
      | none =>
          have heffect := OpenEffect.closed hopen (hfirst.append (.use (.release (.nil _))))
          rwa [hopen] at heffect
      | some tty =>
          by_cases hset : outcome.tcsetattr (rawSettings tty (baudToConstant baud)) = 0
          · simp only [hset, ne_eq, not_true_eq_false, if_false]
            exact .opened tty hopen (Int.not_lt.mp hfd)
              (hfirst.append (.use (.use (.use (.nil _))))) hbaud
          · simp only [hset, ne_eq, not_false_eq_true, if_true]
            have heffect := OpenEffect.closed hopen
              (hfirst.append (.use (.use (.release (.nil _)))))
            rwa [hopen] at heffect

/-- What `open` sets of the terminal for a raw 8N1 line at one of the speeds of the table.
Bits under no mask here are as they were, such as `IUCLC` or an input speed in `CIBAUD`. -/
structure RawLine (tty : Termios) : Prop where
  size : tty.cCflag &&& CSIZE = CS8
  off : tty.cCflag &&& (PARENB ||| CSTOPB ||| CRTSCTS) = 0
  on : tty.cCflag &&& (CREAD ||| CLOCAL) = CREAD ||| CLOCAL
  speed : ∃ baud, ¬baudToConstant baud < 0 ∧
    tty.cCflag &&& CBAUD = (baudToConstant baud).toUInt32
  modes : tty.cLflag &&& (ICANON ||| ECHO ||| ECHOE ||| ISIG) = 0
  input : tty.cIflag &&& (IXON ||| IXOFF ||| IXANY ||| IGNBRK ||| BRKINT ||| PARMRK |||
    ISTRIP ||| INLCR ||| IGNCR ||| ICRNL ||| IBAUD0) = 0
  output : tty.cOflag &&& OPOST = 0
  immediate : tty.cCc.get VMIN = 0 ∧ tty.cCc.get VTIME = 0

/-- Bits cleared are clear, and bits set under another mask do not show. -/
theorem cleared {v m k : UInt32} (h : ~~~m &&& k = 0) : v &&& ~~~m &&& k = 0 := by
  rw [UInt32.and_assoc, h, UInt32.and_zero]

theorem or_and (a b k : UInt32) : (a ||| b) &&& k = (a &&& k) ||| (b &&& k) := by
  rw [← UInt32.toBitVec_inj]
  simp only [UInt32.toBitVec_and, UInt32.toBitVec_or]
  ext i hi
  simp [Bool.and_or_distrib_right]

theorem baudToConstant_mem {baud : Int32} (h : ¬baudToConstant baud < 0) :
    baudToConstant baud ∈
      [B9600, B19200, B38400, B57600, B115200, B230400, B460800, B921600] := by
  simp only [baudToConstant] at h ⊢
  split_ifs at h ⊢
  all_goals first | exact absurd (by decide) h | simp

theorem and_or_self (a k : UInt32) : (a &&& k) ||| k = k := by
  rw [← UInt32.toBitVec_inj]
  simp only [UInt32.toBitVec_and, UInt32.toBitVec_or]
  ext i hi
  simp

/-- The speed is kept apart from the bits cleared and set after it. -/
theorem speed_rawSettings (tty : Termios) {baud : Int32} (h : ¬baudToConstant baud < 0) :
    (rawSettings tty (baudToConstant baud)).cCflag &&& CBAUD =
      (baudToConstant baud).toUInt32 := by
  have hspeed : (baudToConstant baud).toUInt32 &&& CBAUD = (baudToConstant baud).toUInt32 := by
    have hall : [B9600, B19200, B38400, B57600, B115200, B230400, B460800, B921600].all
        (fun c => c.toUInt32 &&& CBAUD == c.toUInt32) = true := by decide
    exact beq_iff_eq.mp (List.all_eq_true.mp hall _ (baudToConstant_mem h))
  simp only [rawSettings, setInputSpeed]
  rw [or_and, UInt32.and_assoc,
    show ~~~(PARENB ||| CSTOPB ||| CSIZE ||| CRTSCTS) &&& CBAUD = CBAUD by decide,
    show (CS8 ||| CREAD ||| CLOCAL) &&& CBAUD = 0 by decide, UInt32.or_zero, or_and,
    cleared (by decide), UInt32.zero_or, hspeed]

theorem rawLine_rawSettings (tty : Termios) {baud : Int32} (h : ¬baudToConstant baud < 0) :
    RawLine (rawSettings tty (baudToConstant baud)) where
  size := by
    simp only [rawSettings]
    rw [or_and, cleared (by decide), UInt32.zero_or]
    decide
  off := by
    simp only [rawSettings]
    rw [or_and, cleared (by decide), UInt32.zero_or]
    decide
  on := by
    simp only [rawSettings]
    rw [or_and, show (CS8 ||| CREAD ||| CLOCAL) &&& (CREAD ||| CLOCAL) = CREAD ||| CLOCAL by decide,
      and_or_self]
  speed := ⟨baud, h, speed_rawSettings tty h⟩
  modes := cleared (by decide)
  input := by
    simp only [rawSettings, setInputSpeed]
    rw [UInt32.and_assoc, UInt32.and_assoc,
      show ~~~IBAUD0 &&& (~~~(IXON ||| IXOFF ||| IXANY ||| IGNBRK ||| BRKINT ||| PARMRK |||
        ISTRIP ||| INLCR ||| IGNCR ||| ICRNL) &&& (IXON ||| IXOFF ||| IXANY ||| IGNBRK |||
        BRKINT ||| PARMRK ||| ISTRIP ||| INLCR ||| IGNCR ||| ICRNL ||| IBAUD0)) = 0 by decide,
      UInt32.and_zero]
  output := cleared (by decide)
  immediate := by
    have hget (v : Vector UInt8 32) (i : Fin 32) : v.get i = v[i.val] := rfl
    simp [hget, rawSettings, VMIN, VTIME]

def Port.Raw (port : Port) : Prop :=
  port.impl.isOpen = true → ∃ tty, port.settings = some tty ∧ RawLine tty

theorem Port.Raw.step {port : Port} (h : port.Raw) (call : PortCall) : (port.step call).Raw := by
  cases call with
  | openDevice device baud outcome =>
      have heffect := openEffect port.impl device baud outcome
      simp only [Port.step]
      generalize port.impl.openDevice device baud outcome = opened at heffect
      cases heffect with
      | already hopen => exact h
      | refused hopen => exact h
      | failed hopen hfd => exact fun hopen' => by simp [hopen] at hopen'
      | closed hopen hcalls => exact fun hopen' => by simp [hopen] at hopen'
      | opened tty hopen hfd hcalls hbaud => exact fun _ => ⟨_, rfl, rawLine_rawSettings tty hbaud⟩
  | send data write => exact h
  | recvBytes timeout outcome => exact h
  | tryRecvBytes outcome => exact h

/-- Whenever a `SerialChannel` is open, it has last set its terminal to a raw 8N1 line at a
speed that `open` takes, whatever was called and whatever the system answered. -/
theorem open_line_raw (calls : List PortCall) : (calls.foldl Port.step {}).Raw :=
  List.foldlRecOn calls _ (fun h => by simp at h) fun _ h call _ => h.step call

end RovSdk.SerialPort
