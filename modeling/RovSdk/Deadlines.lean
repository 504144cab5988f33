import Mathlib.Tactic.Common
import RovSdk.FrameLink

namespace RovSdk.Deadlines

open RovSdk.ProtocolBytes
open RovSdk.StreamParser
open RovSdk.Packets
open RovSdk.FrameLink

/-- At least a whole millisecond remains, and what remains fits in 64 bits: the test that
both receive loops make on a reading of the clock (`timeLeft_iff`). -/
def TimeLeft (deadline now : Int64) : Prop :=
  1000000 ≤ deadline.toInt - now.toInt ∧ deadline.toInt - now.toInt < 2 ^ 63

instance (deadline now : Int64) : Decidable (TimeLeft deadline now) :=
  inferInstanceAs (Decidable (_ ∧ _))

def InTime (start timeout now : Int64) : Prop :=
  1000000 ≤ start.toInt + timeout.toInt * 1000000 - now.toInt

instance (start timeout now : Int64) : Decidable (InTime start timeout now) :=
  inferInstanceAs (Decidable (_ ≤ _))

theorem toInt_deadlineAfter (now timeout : Int64) :
    (deadlineAfter now timeout).toInt =
      (now.toInt + timeout.toInt * 1000000).bmod (2 ^ 64) := by
  rw [deadlineAfter, Int64.toInt_add, Int64.toInt_mul, Int.add_bmod_bmod]
  rfl

theorem toInt_remainingMillis (deadline now : Int64) :
    (remainingMillis deadline now).toInt =
      ((deadline.toInt - now.toInt).bmod (2 ^ 64)).tdiv 1000000 := by
  rw [← Int64.toInt_sub]
  exact Int64.toInt_div_of_ne_right _ _ (by decide)

theorem remainingMillis_pos_iff (deadline now : Int64) :
    0 < remainingMillis deadline now ↔
      1000000 ≤ (deadline.toInt - now.toInt).bmod (2 ^ 64) := by
  rw [Int64.lt_iff_toInt_lt, toInt_remainingMillis, Int64.toInt_zero]
  generalize (deadline.toInt - now.toInt).bmod (2 ^ 64) = a
  constructor
  · intro hpos
    by_contra hlt
    rcases lt_or_ge a 0 with hneg | hnonneg
    · have hopposite := Int.tdiv_nonneg (a := -a) (b := 1000000) (by omega) (by omega)
      rw [Int.neg_tdiv] at hopposite
      omega
    · rw [Int.tdiv_eq_zero_of_lt hnonneg (by omega)] at hpos
      omega
  · intro hge
    rw [Int.tdiv_eq_ediv_of_nonneg (by omega)]
    omega

theorem timeLeft_iff (deadline now : Int64) :
    TimeLeft deadline now ↔ now < deadline ∧ 0 < remainingMillis deadline now := by
  have hdeadline := deadline.toInt_lt
  have hnow := now.le_toInt
  rw [TimeLeft, Int64.lt_iff_toInt_lt, remainingMillis_pos_iff]
  simp only [Int.bmod]
  omega

theorem TimeLeft.lt {deadline now : Int64} (h : TimeLeft deadline now) : now < deadline :=
  ((timeLeft_iff deadline now).mp h).1

theorem TimeLeft.pos {deadline now : Int64} (h : TimeLeft deadline now) :
    0 < remainingMillis deadline now :=
  ((timeLeft_iff deadline now).mp h).2

/-- Where the test passes, what remains is cut to whole milliseconds. -/
theorem toInt_remainingMillis_of_timeLeft {deadline now : Int64}
    (h : TimeLeft deadline now) :
    (remainingMillis deadline now).toInt =
      (deadline.toInt - now.toInt) / 1000000 := by
  rw [TimeLeft] at h
  rw [toInt_remainingMillis, Int.bmod_eq_of_le (by omega) (by omega),
    Int.tdiv_eq_ediv_of_nonneg (by omega)]

/-- The deadline fits in 64 bits, and so does the timeout in nanoseconds. -/
def NoOverflow (start timeout : Int64) : Prop :=
  timeout.toInt * 1000000 < 2 ^ 63 ∧ start.toInt + timeout.toInt * 1000000 < 2 ^ 63

theorem NoOverflow.toInt_deadlineAfter {start timeout : Int64}
    (h : NoOverflow start timeout) (hpos : 0 < timeout) :
    (deadlineAfter start timeout).toInt = start.toInt + timeout.toInt * 1000000 := by
  have hstart := start.le_toInt
  obtain ⟨-, hsum⟩ := h
  rw [Int64.lt_iff_toInt_lt, Int64.toInt_zero] at hpos
  rw [Deadlines.toInt_deadlineAfter, Int.bmod_eq_of_le (by omega) (by omega)]

/-- The loops never read the clock as in time when it is not, wrapped or not. -/
theorem inTime_of_timeLeft {start timeout now : Int64} (htimeout : 0 < timeout)
    (h : TimeLeft (deadlineAfter start timeout) now) : InTime start timeout now := by
  have hstart := start.le_toInt
  have hnow := now.toInt_lt
  rw [TimeLeft, toInt_deadlineAfter] at h
  rw [Int64.lt_iff_toInt_lt, Int64.toInt_zero] at htimeout
  rw [InTime]
  simp only [Int.bmod] at h
  omega

/-- While the deadline fits in 64 bits the loops read the clock rightly. -/
theorem timeLeft_of_inTime {start timeout now : Int64} (hnow : 0 ≤ now.toInt)
    (hfits : start.toInt + timeout.toInt * 1000000 < 2 ^ 63)
    (h : InTime start timeout now) : TimeLeft (deadlineAfter start timeout) now := by
  rw [InTime] at h
  rw [TimeLeft, toInt_deadlineAfter, Int.bmod_eq_of_le (by omega) (by omega)]
  omega

section Turn

variable {env : Env} {l : Link} {deadline : Int64} {p : FrameParser}

theorem recvFrameLoop_of_some {frame : List UInt8}
    (hnext : l.parser.nextFrame = (some frame, p)) (fuel : Nat) :
    recvFrameLoop env deadline (fuel + 1) l =
      (.returned (some frame), { l with parser := p }) := by
  rw [recvFrameLoop, hnext]

theorem recvFrameLoop_of_not_timeLeft (hnext : l.parser.nextFrame = (none, p))
    (h : ¬TimeLeft deadline (env.now l.ticks)) (fuel : Nat) :
    recvFrameLoop env deadline (fuel + 1) l =
      (.returned none, { l with parser := p }.tick) := by
  rw [recvFrameLoop, hnext]
  simp only
  split_ifs with hdeadline hremaining
  · rfl
  · rfl
  · exact absurd ((timeLeft_iff _ _).mpr
      ⟨Int64.not_le.mp hdeadline, Int64.not_le.mp hremaining⟩) h

theorem recvFrameLoop_of_timeLeft (hnext : l.parser.nextFrame = (none, p))
    (h : TimeLeft deadline (env.now l.ticks)) (fuel : Nat) :
    recvFrameLoop env deadline (fuel + 1) l =
      match env.recvBytes l.timeouts.length with
      | none =>
          (.returned none,
            { l with parser := p }.tick.ask (remainingMillis deadline (env.now l.ticks)))
      | some bytes =>
          recvFrameLoop env deadline fuel
            (({ l with parser := p }.tick.ask
              (remainingMillis deadline (env.now l.ticks))).feed bytes) := by
  rw [recvFrameLoop, hnext]
  exact (if_neg (Int64.not_le.mpr h.lt)).trans (if_neg (Int64.not_le.mpr h.pos))

theorem recvFrameAsLoop_of_not_timeLeft
    (recv : Int64 → Link → Outcome (List UInt8) × Link) (k : PacketType) (fuel : Nat)
    (h : ¬TimeLeft deadline (env.now l.ticks)) :
    recvFrameAsLoop recv env k deadline (fuel + 1) l = (.returned none, l.tick) := by
  rw [recvFrameAsLoop]
  simp only
  split_ifs with hdeadline hremaining
  · rfl
  · rfl
  · exact absurd ((timeLeft_iff _ _).mpr
      ⟨Int64.not_le.mp hdeadline, Int64.not_le.mp hremaining⟩) h

theorem recvFrameAsLoop_of_timeLeft
    (recv : Int64 → Link → Outcome (List UInt8) × Link) (k : PacketType) (fuel : Nat)
    (h : TimeLeft deadline (env.now l.ticks)) :
    recvFrameAsLoop recv env k deadline (fuel + 1) l =
      match recv (remainingMillis deadline (env.now l.ticks)) l.tick with
      | (.running, l) => (.running, l)
      | (.returned none, l) => (.returned none, l)
      | (.returned (some frame), l) =>
          if frame.length ≥ kFrameOverhead + 1 ∧ getU8 frame 4 = k.type then
            (.returned (k.decode frame), l)
          else recvFrameAsLoop recv env k deadline fuel l := by
  rw [recvFrameAsLoop]
  exact (if_neg (Int64.not_le.mpr h.lt)).trans (if_neg (Int64.not_le.mpr h.pos))

end Turn

end RovSdk.Deadlines
