import RovSdk.TypedUdpReceive
import RovSdk.ReadAttempts
import RovSdk.SerialChannel

namespace RovSdk.LongTimeouts

open RovSdk.ProtocolBytes
open RovSdk.StreamParser
open RovSdk.ParserSessions
open RovSdk.Packets
open RovSdk.FrameLink
open RovSdk.Deadlines
open RovSdk.UdpChannel
open RovSdk.LinkConservation
open RovSdk.ReadAttempts
open RovSdk.TypedUdpReceive (Accepts Passes match_of_accepts match_of_neither
  recvFrameAsLoop_udp_of_none)

variable {env : Env} {l l' : Link} {start n : Int64} {k : PacketType}

/-- Nothing arrives during a call that starts at `start`, so every `poll` returns 0 and
`recv_bytes` nothing (`recvBytes_of_poll_zero` of each channel); the clock does not go
back. -/
structure Idle (env : Env) (l : Link) (start : Int64) : Prop where
  silent : ∀ i, env.recvBytes i = none
  clock : ∀ i j, i ≤ j → (env.now i).toInt ≤ (env.now j).toInt
  start : env.now l.ticks = start

/-- The nanoseconds that the call which left `l'` has taken at least: those between its
readings of the clock, and those of its `poll`, which follows its last reading. -/
def elapsed (env : Env) (l l' : Link) : Int :=
  (if l.ticks < l'.ticks then
      (env.now (l'.ticks - 1)).toInt - (env.now l.ticks).toInt
    else 0) +
    ((l'.timeouts.drop l.timeouts.length).map fun timeout =>
      (msToPoll timeout).toInt * 1000000).sum

/-- The call does not return nothing before two milliseconds short of its timeout. -/
def Honoured (env : Env) (l : Link) (timeout : Int64) {α : Type} (r : Outcome α × Link) :
    Prop :=
  r.1 = .returned none → (timeout.toInt - 2) * 1000000 ≤ elapsed env l r.2

theorem elapsed_of_asked (hticks : l.ticks < l'.ticks) {timeout : Int64}
    (htimeouts : l'.timeouts = l.timeouts ++ [timeout]) :
    elapsed env l l' = (env.now (l'.ticks - 1)).toInt - (env.now l.ticks).toInt +
      (msToPoll timeout).toInt * 1000000 := by
  rw [elapsed, if_pos hticks, htimeouts, List.drop_left]
  simp only [List.map_cons, List.map_nil, List.sum_cons, List.sum_nil, Int.add_zero]

theorem elapsed_of_not_asked (hticks : l.ticks < l'.ticks)
    (htimeouts : l'.timeouts.length = l.timeouts.length) :
    elapsed env l l' = (env.now (l'.ticks - 1)).toInt - (env.now l.ticks).toInt := by
  rw [elapsed, if_pos hticks, List.drop_eq_nil_of_le htimeouts.le]
  simp only [List.map_nil, List.sum_nil, Int.add_zero]

theorem elapsed_eq_add {l₀ : Link} (hticks : l₀.ticks ≤ l.ticks)
    (htimeouts : l.timeouts.length = l₀.timeouts.length) (hmore : l.ticks < l'.ticks) :
    elapsed env l₀ l' =
      (env.now l.ticks).toInt - (env.now l₀.ticks).toInt + elapsed env l l' := by
  rw [elapsed, elapsed, if_pos hmore, if_pos (by omega), htimeouts]
  omega

/-- The call ends with its last reading of the clock: too late, or by the one `poll`
that follows. -/
def EndsAfter (env : Env) (deadline : Int64) (l l' : Link) : Prop :=
  l'.ticks = l.ticks + 2 ∧
    (¬TimeLeft deadline (env.now (l.ticks + 1)) ∧ l'.timeouts = l.timeouts ∨
      TimeLeft deadline (env.now (l.ticks + 1)) ∧
        l'.timeouts = l.timeouts ++ [remainingMillis deadline (env.now (l.ticks + 1))])

theorem EndsAfter.elapsed_eq {deadline : Int64} (h : EndsAfter env deadline l l') :
    elapsed env l l' = (env.now (l.ticks + 1)).toInt - (env.now l.ticks).toInt +
      if TimeLeft deadline (env.now (l.ticks + 1)) then
        min (remainingMillis deadline (env.now (l.ticks + 1))).toInt 2147483647 * 1000000
      else 0 := by
  obtain ⟨hticks, hcases⟩ := h
  have hmore : l.ticks < l'.ticks := by omega
  have hlast : l'.ticks - 1 = l.ticks + 1 := by omega
  rcases hcases with ⟨hlate, htimeouts⟩ | ⟨hleft, htimeouts⟩
  · rw [elapsed_of_not_asked hmore (congrArg _ htimeouts), hlast, if_neg hlate, Int.add_zero]
  · rw [elapsed_of_asked hmore htimeouts, hlast, if_pos hleft, toInt_msToPoll hleft.pos]

/-- Unless its deadline overflows, the call waits to the last millisecond of the timeout
or for `INT_MAX` milliseconds. -/
theorem EndsAfter.waits (h : EndsAfter env (deadlineAfter (env.now l.ticks) n) l l')
    (hn : 0 < n) (hclock : ∀ i j, i ≤ j → (env.now i).toInt ≤ (env.now j).toInt)
    (hfits : NoOverflow (env.now l.ticks) n) :
    (n.toInt - 1) * 1000000 ≤ elapsed env l l' ∨
      2147483647 * 1000000 ≤ elapsed env l l' := by
  have hlater := hclock l.ticks (l.ticks + 1) (Nat.le_succ _)
  have hdeadline := hfits.toInt_deadlineAfter hn
  obtain ⟨hscaled, -⟩ := hfits
  rw [h.elapsed_eq]
  split_ifs with hleft
  · have hrem := toInt_remainingMillis_of_timeLeft hleft
    rw [hdeadline] at hrem
    omega
  · rw [TimeLeft, hdeadline] at hleft
    omega

theorem recvFrame_endsAfter (hn : 0 < n) (hsilent : ∀ i, env.recvBytes i = none)
    {fuel : Nat} (h : recvFrame env fuel n l = (.returned none, l')) :
    EndsAfter env (deadlineAfter (env.now l.ticks) n) l l' := by
  rw [recvFrame, if_neg (Int64.not_le.mpr hn)] at h
  cases fuel with
  | zero => cases h
  | succ fuel =>
      rcases hnext : l.tick.parser.nextFrame with ⟨_ | frame, p⟩
      · by_cases hleft :
          TimeLeft (deadlineAfter (env.now l.ticks) n) (env.now (l.ticks + 1))
        · rw [recvFrameLoop_of_timeLeft hnext hleft, hsilent] at h
          cases h
          exact ⟨rfl, .inr ⟨hleft, rfl⟩⟩
        · rw [recvFrameLoop_of_not_timeLeft hnext hleft] at h
          cases h
          exact ⟨rfl, .inl ⟨hleft, rfl⟩⟩
      · rw [recvFrameLoop_of_some hnext] at h
        cases h

theorem udpRecvFrame_of_silent (hn : 0 < n) (hsilent : ∀ i, env.recvBytes i = none)
    (l : Link) : udpRecvFrame env n l = (.returned none, l.ask n) := by
  rw [udpRecvFrame, if_neg (Int64.not_le.mpr hn), hsilent]

theorem recvFrameAs_udp_endsAfter (hn : 0 < n) (hsilent : ∀ i, env.recvBytes i = none)
    {fuel : Nat} (h : recvFrameAs env fuel .udp k n l = (.returned none, l')) :
    EndsAfter env (deadlineAfter (env.now l.ticks) n) l l' := by
  rw [recvFrameAs, if_neg (Int64.not_le.mpr hn)] at h
  cases fuel with
  | zero => cases h
  | succ fuel =>
      by_cases hleft :
        TimeLeft (deadlineAfter (env.now l.ticks) n) (env.now (l.ticks + 1))
      · rw [recvFrameAsLoop_of_timeLeft (l := l.tick) _ _ _ hleft, LinkClass.recvFrame,
          show l.tick.ticks = l.ticks + 1 from rfl,
          udpRecvFrame_of_silent hleft.pos hsilent] at h
        cases h
        exact ⟨rfl, .inr ⟨hleft, rfl⟩⟩
      · rw [recvFrameAsLoop_of_not_timeLeft (l := l.tick) _ _ _ hleft] at h
        cases h
        exact ⟨rfl, .inl ⟨hleft, rfl⟩⟩

theorem recvFrame_none_of_empty {deadline : Int64} (hsilent : ∀ i, env.recvBytes i = none)
    {p : FrameParser} (hnext : l.parser.nextFrame = (none, p)) (fuel : Nat) :
    (recvFrameLoop env deadline (fuel + 1) l).1 = .returned none := by
  by_cases hleft : TimeLeft deadline (env.now l.ticks)
  · rw [recvFrameLoop_of_timeLeft hnext hleft, hsilent]
  · rw [recvFrameLoop_of_not_timeLeft hnext hleft]

/-- One `poll` of at most `INT_MAX` milliseconds for what remains, cut to whole
milliseconds twice, the readings of the clock being `a`, `b` and `c`. -/
theorem one_poll_iff {s n a b c r q : Int} (hr : r = (s + n * 1000000 - a) / 1000000)
    (hq : q = (b + r * 1000000 - c) / 1000000) (hab : a ≤ b) :
    (n - 2) * 1000000 ≤ b - s + (c - b + min q 2147483647 * 1000000) ↔
      n * 1000000 ≤ c - s + (2147483647 + 2) * 1000000 := by
  rcases le_total q 2147483647 with hwhole | hcut
  · have hwaited : (n - 2) * 1000000 ≤ c - s + q * 1000000 := by omega
    rw [min_eq_left hwhole]
    exact iff_of_true (by omega) (by omega)
  · rw [min_eq_right hcut]
    omega

theorem elapsed_of_inner {l₀ : Link} (hn : 0 < n) (hidle : Idle env l₀ start)
    (hfits : NoOverflow start n) (hticks : l₀.ticks ≤ l.ticks)
    (htimeouts : l.timeouts.length = l₀.timeouts.length)
    (hleft : TimeLeft (deadlineAfter start n) (env.now l.ticks))
    (hinner : NoOverflow (env.now (l.ticks + 1))
      (remainingMillis (deadlineAfter start n) (env.now l.ticks)))
    (hends : EndsAfter env (deadlineAfter (env.now (l.ticks + 1))
      (remainingMillis (deadlineAfter start n) (env.now l.ticks))) l.tick l') :
    (n.toInt - 2) * 1000000 ≤ elapsed env l₀ l' ↔
      n.toInt * 1000000 ≤ (env.now (l.ticks + 2)).toInt - start.toInt +
        (2147483647 + 2) * 1000000 := by
  have hrem := toInt_remainingMillis_of_timeLeft hleft
  rw [hfits.toInt_deadlineAfter hn] at hrem
  have hdeadline := hinner.toInt_deadlineAfter hleft.pos
  have hlater := hidle.clock l.ticks (l.ticks + 1) (Nat.le_succ _)
  have hmore : l.tick.ticks < l'.ticks := by
    rw [hends.1]
    omega
  rw [elapsed_eq_add (l := l.tick) (Nat.le_succ_of_le hticks) htimeouts hmore,
    hends.elapsed_eq, show env.now l₀.ticks = start from hidle.start]
  simp only [Link.tick, Nat.add_assoc, Nat.reduceAdd]
  split_ifs with hpolls
  · have hpolled := toInt_remainingMillis_of_timeLeft hpolls
    rw [hdeadline] at hpolled
    exact one_poll_iff hrem hpolled hlater
  · have hlate : ¬TimeLeft _ _ := hpolls
    rw [TimeLeft, hdeadline] at hlate
    have hwaited := hidle.clock (l.ticks + 1) (l.ticks + 2) (Nat.le_succ _)
    have hscaled := hinner.1
    omega

/-- A turn that comes too late, no turn having polled before. -/
theorem waits_of_late {l₀ : Link} (hn : 0 < n) (hidle : Idle env l₀ start)
    (hfits : NoOverflow start n) (hticks : l₀.ticks ≤ l.ticks)
    (htimeouts : l.timeouts.length = l₀.timeouts.length)
    (hlate : ¬TimeLeft (deadlineAfter start n) (env.now l.ticks)) :
    (n.toInt - 2) * 1000000 ≤ elapsed env l₀ l.tick := by
  have hafter := hidle.clock _ _ hticks
  have hstart : (env.now l₀.ticks).toInt = start.toInt := by rw [hidle.start]
  have hmore : l₀.ticks < l.tick.ticks := Nat.lt_succ_of_le hticks
  rw [TimeLeft, hfits.toInt_deadlineAfter hn] at hlate
  obtain ⟨hscaled, -⟩ := hfits
  rw [elapsed_of_not_asked hmore htimeouts]
  simp only [Link.tick, Nat.add_sub_cancel]
  omega

section Stream

/-- The calls of `recv_frame` that the loop makes: the timeout of each, and the link it is
called on. -/
def innerCalls (env : Env) (inner : Nat) (k : PacketType) (deadline : Int64) :
    Nat → Link → List (Int64 × Link)
  | 0, _ => []
  | fuel + 1, l =>
      if TimeLeft deadline (env.now l.ticks) then
        (remainingMillis deadline (env.now l.ticks), l.tick) ::
          match recvFrame env inner (remainingMillis deadline (env.now l.ticks)) l.tick with
          | (.returned (some frame), l) =>
              if frame.length ≥ kFrameOverhead + 1 ∧ getU8 frame 4 = k.type then []
              else innerCalls env inner k deadline fuel l
          | _ => []
      else []

/-- A turn whose reading of the clock is the `i`-th: it comes too late, or the deadline of
the `recv_frame` that it calls fits in 64 bits and the call ends as it should. -/
def Turn (env : Env) (start n : Int64) (i : Nat) (ends : Prop) : Prop :=
  ¬InTime start n (env.now i) ∨
    (env.now (i + 1)).toInt +
        (start.toInt + n.toInt * 1000000 - (env.now i).toInt) / 1000000 * 1000000 < 2 ^ 63 ∧
      ends

/-- Along the frames that the parser holds, each passed over, up to one that decodes, or
to one of the type wanted that does not, which has to come within two milliseconds of the
end; behind the last of them one `poll` has to wait for the rest. -/
def WaitsOut (env : Env) (k : PacketType) (start n : Int64) :
    Nat → List (List UInt8) → Prop
  | i, [] => Turn env start n i <|
      n.toInt * 1000000 ≤
        (env.now (i + 2)).toInt - start.toInt + (2147483647 + 2) * 1000000
  | i, frame :: frames => Turn env start n i <|
      Accepts k frame ∨ Passes k frame ∧ WaitsOut env k start n (i + 2) frames ∨
        ¬Passes k frame ∧
          n.toInt * 1000000 ≤ (env.now (i + 1)).toInt - start.toInt + 2 * 1000000

/-- The loop computes each deadline inside it without overflow, and does not end before
two milliseconds short of the timeout. -/
def LoopHonoured (env : Env) (k : PacketType) (start n : Int64) (l₀ : Link)
    (inner fuel : Nat) (l : Link) : Prop :=
  (∀ call ∈ innerCalls env inner k (deadlineAfter start n) fuel l,
      NoOverflow (env.now call.2.ticks) call.1) ∧
    ∀ l', recvFrameAsLoop (recvFrame env inner) env k (deadlineAfter start n) fuel l =
        (.returned none, l') → (n.toInt - 2) * 1000000 ≤ elapsed env l₀ l'

variable {l₀ : Link} {inner fuel : Nat} {p : FrameParser} {frame : List UInt8}

theorem timeLeft_iff_inTime (hn : 0 < n) (hfits : NoOverflow start n) {now : Int64}
    (hlater : start.toInt ≤ now.toInt) :
    TimeLeft (deadlineAfter start n) now ↔ InTime start n now := by
  rw [TimeLeft, InTime, hfits.toInt_deadlineAfter hn]
  have hscaled := hfits.1
  omega

theorem turn_of_not_timeLeft {i : Nat} {ends : Prop} (hn : 0 < n)
    (hfits : NoOverflow start n) (hlater : start.toInt ≤ (env.now i).toInt)
    (hlate : ¬TimeLeft (deadlineAfter start n) (env.now i)) : Turn env start n i ends := by
  rw [timeLeft_iff_inTime hn hfits hlater] at hlate
  exact .inl hlate

theorem turn_iff_of_timeLeft {i : Nat} {ends : Prop} (hn : 0 < n)
    (hfits : NoOverflow start n) (hlater : start.toInt ≤ (env.now i).toInt)
    (hleft : TimeLeft (deadlineAfter start n) (env.now i)) :
    Turn env start n i ends ↔
      NoOverflow (env.now (i + 1)) (remainingMillis (deadlineAfter start n) (env.now i)) ∧
        ends := by
  have hrem := toInt_remainingMillis_of_timeLeft hleft
  rw [hfits.toInt_deadlineAfter hn] at hrem
  have hscaled := hfits.1
  rw [timeLeft_iff_inTime hn hfits hlater] at hleft
  rw [Turn, or_iff_right (not_not_intro hleft), NoOverflow, hrem]
  refine and_congr_left fun _ => ⟨fun hsum => ⟨?_, hsum⟩, And.right⟩
  omega

theorem loopHonoured_of_late (hn : 0 < n) (hidle : Idle env l₀ start)
    (hfits : NoOverflow start n) (hticks : l₀.ticks ≤ l.ticks)
    (htimeouts : l.timeouts.length = l₀.timeouts.length)
    (hlate : ¬TimeLeft (deadlineAfter start n) (env.now l.ticks)) :
    LoopHonoured env k start n l₀ inner (fuel + 1) l := by
  constructor
  · rw [innerCalls, if_neg hlate]
    simp only [List.not_mem_nil, false_implies, implies_true]
  · intro l' h
    rw [recvFrameAsLoop_of_not_timeLeft _ _ _ hlate] at h
    cases h
    exact waits_of_late hn hidle hfits hticks htimeouts hlate

theorem loopHonoured_iff_of_empty (hn : 0 < n) (hidle : Idle env l₀ start)
    (hfits : NoOverflow start n) (hticks : l₀.ticks ≤ l.ticks)
    (htimeouts : l.timeouts.length = l₀.timeouts.length)
    (hleft : TimeLeft (deadlineAfter start n) (env.now l.ticks))
    (hnext : l.parser.nextFrame = (none, p)) :
    LoopHonoured env k start n l₀ (inner + 1) (fuel + 1) l ↔
      NoOverflow (env.now (l.ticks + 1))
          (remainingMillis (deadlineAfter start n) (env.now l.ticks)) ∧
        n.toInt * 1000000 ≤ (env.now (l.ticks + 2)).toInt - start.toInt +
          (2147483647 + 2) * 1000000 := by
  obtain ⟨l', hrecv⟩ : ∃ l', recvFrame env (inner + 1)
      (remainingMillis (deadlineAfter start n) (env.now l.ticks)) l.tick =
        (.returned none, l') := by
    rw [recvFrame_of_pos hleft.pos]
    exact ⟨_, Prod.ext
      (recvFrame_none_of_empty (l := l.tick.tick) hidle.silent hnext inner) rfl⟩
  have hends := recvFrame_endsAfter hleft.pos hidle.silent hrecv
  rw [LoopHonoured, innerCalls, if_pos hleft, recvFrameAsLoop_of_timeLeft _ _ _ hleft, hrecv]
  simp only [List.mem_singleton, forall_eq, Prod.mk.injEq, true_and]
  refine and_congr_right fun hinner => ?_
  rw [forall_eq']
  exact elapsed_of_inner hn hidle hfits hticks htimeouts hleft hinner hends

theorem loopHonoured_iff_of_frame (hidle : Idle env l₀ start) (hticks : l₀.ticks < l.ticks)
    (htimeouts : l.timeouts.length = l₀.timeouts.length)
    (hleft : TimeLeft (deadlineAfter start n) (env.now l.ticks))
    (hnext : l.parser.nextFrame = (some frame, p)) :
    LoopHonoured env k start n l₀ (inner + 1) (fuel + 1) l ↔
      NoOverflow (env.now (l.ticks + 1))
          (remainingMillis (deadlineAfter start n) (env.now l.ticks)) ∧
        (Accepts k frame ∨
          Passes k frame ∧
              LoopHonoured env k start n l₀ (inner + 1) fuel { l.tick.tick with parser := p } ∨
            ¬Passes k frame ∧
              n.toInt * 1000000 ≤
                (env.now (l.ticks + 1)).toInt - start.toInt + 2 * 1000000) := by
  have hvalid := validFrame_of_nextFrame_some hnext
  have hrecv : recvFrame env (inner + 1) _ l.tick = _ :=
    recvFrame_of_some (l := l.tick) hleft.pos hnext inner
  rw [LoopHonoured, innerCalls, if_pos hleft, hrecv, recvFrameAsLoop_of_frame hleft hnext]
  simp only [List.forall_mem_cons, and_assoc]
  refine and_congr_right fun _ => ?_
  by_cases haccepts : Accepts k frame
  · obtain ⟨pkt, hdecode⟩ := Option.isSome_iff_exists.mp haccepts.2
    rw [if_pos (match_of_accepts haccepts), if_pos (match_of_accepts haccepts), hdecode]
    simp [haccepts]
  by_cases hpasses : Passes k frame
  · have hmismatch := (passedOver_iff hvalid).mp hpasses.2
    rw [if_neg hmismatch, if_neg hmismatch]
    simp [haccepts, hpasses, LoopHonoured]
  · obtain ⟨hmatch, hdecode⟩ := match_of_neither hvalid haccepts hpasses
    rw [if_pos hmatch, if_pos hmatch, hdecode]
    have hwaited : elapsed env l₀ { l.tick.tick with parser := p } = _ :=
      elapsed_of_not_asked (Nat.lt_add_right 2 hticks) htimeouts
    rw [show env.now l₀.ticks = start from hidle.start] at hwaited
    simp only [List.not_mem_nil, false_implies, implies_true, true_and, Prod.mk.injEq, forall_eq',
      haccepts, hpasses, false_or, false_and, not_false_eq_true]
    rw [hwaited]
    simp only [Link.tick, Nat.add_sub_cancel]
    omega

/-- By induction on the turns, at most one for each frame held and one more. -/
theorem loopHonoured_of_waitsOut (hn : 0 < n) (hidle : Idle env l₀ start)
    (hfits : NoOverflow start n) (hticks : l₀.ticks < l.ticks)
    (htimeouts : l.timeouts.length = l₀.timeouts.length)
    (h : WaitsOut env k start n l.ticks l.parser.drain.1) :
    LoopHonoured env k start n l₀ (inner + 1) fuel l := by
  induction fuel generalizing l with
  | zero => exact ⟨by simp [innerCalls], fun l' hloop => by cases hloop⟩
  | succ fuel ih =>
      have hlater := hidle.clock _ _ hticks.le
      rw [hidle.start] at hlater
      by_cases hleft : TimeLeft (deadlineAfter start n) (env.now l.ticks)
      · rcases hnext : l.parser.nextFrame with ⟨_ | frame, p⟩
        · rw [drain_of_none hnext, WaitsOut, turn_iff_of_timeLeft hn hfits hlater hleft] at h
          exact (loopHonoured_iff_of_empty hn hidle hfits hticks.le htimeouts hleft hnext).mpr h
        · rw [drain_of_some hnext, WaitsOut, turn_iff_of_timeLeft hn hfits hlater hleft] at h
          refine (loopHonoured_iff_of_frame hidle hticks htimeouts hleft hnext).mpr
            ⟨h.1, h.2.imp_right (Or.imp_left (And.imp_right fun hrest => ?_))⟩
          exact ih (l := { l.tick.tick with parser := p }) (Nat.lt_add_right 2 hticks) htimeouts
            hrest
      · exact loopHonoured_of_late hn hidle hfits hticks.le htimeouts hleft

/-- Conversely, with a turn for each frame held and one more. -/
theorem waitsOut_of_loopHonoured (hn : 0 < n) (hidle : Idle env l₀ start)
    (hfits : NoOverflow start n) (hticks : l₀.ticks < l.ticks)
    (htimeouts : l.timeouts.length = l₀.timeouts.length)
    (hfuel : l.parser.drain.1.length < fuel)
    (h : LoopHonoured env k start n l₀ (inner + 1) fuel l) :
    WaitsOut env k start n l.ticks l.parser.drain.1 := by
  induction fuel generalizing l with
  | zero => exact absurd hfuel (Nat.not_lt_zero _)
  | succ fuel ih =>
      have hlater := hidle.clock _ _ hticks.le
      rw [hidle.start] at hlater
      rcases hnext : l.parser.nextFrame with ⟨_ | frame, p⟩
      · rw [drain_of_none hnext, WaitsOut]
        by_cases hleft : TimeLeft (deadlineAfter start n) (env.now l.ticks)
        · rw [turn_iff_of_timeLeft hn hfits hlater hleft]
          exact (loopHonoured_iff_of_empty hn hidle hfits hticks.le htimeouts hleft hnext).mp h
        · exact turn_of_not_timeLeft hn hfits hlater hleft
      · rw [drain_of_some hnext] at hfuel ⊢
        rw [WaitsOut]
        by_cases hleft : TimeLeft (deadlineAfter start n) (env.now l.ticks)
        · rw [turn_iff_of_timeLeft hn hfits hlater hleft]
          obtain ⟨hinner, hends⟩ :=
            (loopHonoured_iff_of_frame hidle hticks htimeouts hleft hnext).mp h
          refine ⟨hinner, hends.imp_right (Or.imp_left (And.imp_right fun hrest => ?_))⟩
          exact ih (l := { l.tick.tick with parser := p }) (Nat.lt_add_right 2 hticks) htimeouts
            (Nat.lt_of_succ_lt_succ hfuel) hrest
        · exact turn_of_not_timeLeft hn hfits hlater hleft

theorem recvFrameAs_serial_honoured_iff (hn : 0 < n) (hidle : Idle env l start) :
    (NoOverflow start n ∧ ∀ fuel,
        (∀ call ∈ innerCalls env fuel k (deadlineAfter start n) fuel l.tick,
          NoOverflow (env.now call.2.ticks) call.1) ∧
        Honoured env l n (recvFrameAs env fuel .serial k n l)) ↔
      NoOverflow start n ∧ WaitsOut env k start n (l.ticks + 1) l.parser.drain.1 := by
  refine and_congr_right fun hfits => ?_
  have hcall : ∀ fuel, Honoured env l n (recvFrameAs env fuel .serial k n l) ↔ ∀ l',
      recvFrameAsLoop (recvFrame env fuel) env k (deadlineAfter start n) fuel l.tick =
        (.returned none, l') → (n.toInt - 2) * 1000000 ≤ elapsed env l l' := by
    intro fuel
    rw [Honoured, recvFrameAs_of_pos hn, hidle.start]
    exact ⟨fun h l' hloop => by rw [hloop] at h; exact h rfl,
      fun h hnone => h _ (Prod.ext hnone rfl)⟩
  simp only [hcall]
  constructor
  · intro h
    exact waitsOut_of_loopHonoured (l := l.tick) hn hidle hfits (Nat.lt_succ_self _) rfl
      (Nat.lt_succ_self _) (h (l.parser.drain.1.length + 1))
  · intro h fuel
    cases fuel with
    | zero => exact ⟨by simp [innerCalls], fun l' hloop => by cases hloop⟩
    | succ fuel =>
        exact loopHonoured_of_waitsOut (l := l.tick) hn hidle hfits (Nat.lt_succ_self _) rfl h

end Stream

def steady (start : Int64) : Env := ⟨fun _ => start, fun _ => none⟩

theorem idle_steady (start : Int64) : Idle (steady start) {} start :=
  ⟨fun _ => rfl, fun _ _ _ => Int.le_refl _, rfl⟩

def WithinOnePoll (start timeout : Int64) : Prop :=
  start.toInt + timeout.toInt * 1000000 < 2 ^ 63 ∧ timeout.toInt ≤ 2147483647 + 2

theorem WithinOnePoll.noOverflow (h : WithinOnePoll start n) : NoOverflow start n := by
  obtain ⟨hsum, hmax⟩ := h
  exact ⟨by omega, hsum⟩

/-- A receive function that waits once is honoured exactly when its deadline fits and one
`poll` can wait long enough; with a steady clock it waits no longer. -/
theorem honoured_iff_of_endsAfter {α : Type} (recv : Env → Nat → Link → Outcome α × Link)
    (hn : 0 < n)
    (hends : ∀ env fuel l l', (∀ i, env.recvBytes i = none) →
      recv env fuel l = (.returned none, l') →
        EndsAfter env (deadlineAfter (env.now l.ticks) n) l l')
    (hnone : (recv (steady start) 1 {}).1 = .returned none) :
    (∀ env l, Idle env l start →
        NoOverflow start n ∧ ∀ fuel, Honoured env l n (recv env fuel l)) ↔
      WithinOnePoll start n := by
  constructor
  · intro h
    obtain ⟨hfits, hhonoured⟩ := h _ _ (idle_steady start)
    have hwaited := hhonoured 1 hnone
    have hafter := hends (steady start) 1 {} _ (fun _ => rfl) (Prod.ext hnone rfl)
    rw [hafter.elapsed_eq] at hwaited
    refine ⟨hfits.2, ?_⟩
    split_ifs at hwaited with hleft
    · simp only [steady] at hwaited
      omega
    · simp only [steady] at hwaited
      omega
  · intro hwithin env l hidle
    refine ⟨hwithin.noOverflow, fun fuel hreturned => ?_⟩
    have hafter := hends env fuel l (recv env fuel l).2 hidle.silent (Prod.ext hreturned rfl)
    have hwaits := hafter.waits hn hidle.clock (by rw [hidle.start]; exact hwithin.noOverflow)
    have hmax := hwithin.2
    omega

theorem recvFrame_honoured_iff (hn : 0 < n) :
    (∀ env l, Idle env l start →
        NoOverflow start n ∧ ∀ fuel, Honoured env l n (recvFrame env fuel n l)) ↔
      WithinOnePoll start n := by
  refine honoured_iff_of_endsAfter (fun env fuel l => recvFrame env fuel n l) hn
    (fun env fuel l l' hsilent h => recvFrame_endsAfter hn hsilent h) ?_
  rw [recvFrame, if_neg (Int64.not_le.mpr hn)]
  exact recvFrame_none_of_empty (l := Link.tick {}) (fun _ => rfl) (p := {}) (by decide) 0

theorem recvFrameAs_udp_honoured_iff (hn : 0 < n) (k : PacketType) :
    (∀ env l, Idle env l start →
        NoOverflow start n ∧ ∀ fuel, Honoured env l n (recvFrameAs env fuel .udp k n l)) ↔
      WithinOnePoll start n := by
  refine honoured_iff_of_endsAfter (fun env fuel l => recvFrameAs env fuel .udp k n l) hn
    (fun env fuel l l' hsilent h => recvFrameAs_udp_endsAfter hn hsilent h) ?_
  rw [recvFrameAs, if_neg (Int64.not_le.mpr hn)]
  exact recvFrameAsLoop_udp_of_none 1 k 0 rfl

theorem udpRecvFrame_honoured_iff (hn : 0 < n) :
    (∀ env l, Idle env l start → Honoured env l n (udpRecvFrame env n l)) ↔
      n.toInt ≤ 2147483647 + 2 := by
  have helapsed : ∀ env l, (∀ i, env.recvBytes i = none) →
      elapsed env l (udpRecvFrame env n l).2 = min n.toInt 2147483647 * 1000000 := by
    intro env l hsilent
    rw [udpRecvFrame_of_silent hn hsilent, elapsed]
    simp only [Link.ask, List.drop_left, lt_self_iff_false, if_false, List.map_cons,
      List.map_nil, List.sum_cons, List.sum_nil, Int.add_zero, Int.zero_add,
      toInt_msToPoll hn]
  constructor
  · intro h
    have hwaited := h _ _ (idle_steady start)
      (by rw [udpRecvFrame_of_silent hn (fun _ => rfl)])
    rw [helapsed _ _ (fun _ => rfl)] at hwaited
    omega
  · intro hmax env l hidle _
    rw [helapsed env l hidle.silent]
    omega

theorem drain_empty : ({} : FrameParser).drain.1 = [] := by decide

/-- On an idle channel, whatever the clock shows, a receive call with a positive timeout
computes its deadline without overflow and does not return nothing before two
milliseconds short of it exactly when the deadline fits in 64 bits and the timeout is
no longer than one `poll` can wait; over a stream `recv_frame_as` depends on the frames
that the parser holds and on the deadlines of the `recv_frame` calls they cost. -/
theorem long_timeouts_honoured_iff (start n : Int64) (k : PacketType) (hn : 0 < n) :
    ((∀ env l, Idle env l start →
          NoOverflow start n ∧ ∀ fuel, Honoured env l n (recvFrame env fuel n l)) ↔
        WithinOnePoll start n) ∧
      (∀ env l, Idle env l start →
        ((NoOverflow start n ∧ ∀ fuel,
            (∀ call ∈ innerCalls env fuel k (deadlineAfter start n) fuel l.tick,
              NoOverflow (env.now call.2.ticks) call.1) ∧
            Honoured env l n (recvFrameAs env fuel .serial k n l)) ↔
          NoOverflow start n ∧ WaitsOut env k start n (l.ticks + 1) l.parser.drain.1)) ∧
      ((∀ env l, Idle env l start →
          NoOverflow start n ∧
            ∀ fuel, Honoured env l n (recvFrameAs env fuel .udp k n l)) ↔
        WithinOnePoll start n) ∧
      ((∀ env l, Idle env l start → Honoured env l n (udpRecvFrame env n l)) ↔
        n.toInt ≤ 2147483647 + 2) :=
  ⟨recvFrame_honoured_iff hn, fun _ _ hidle => recvFrameAs_serial_honoured_iff hn hidle,
    recvFrameAs_udp_honoured_iff hn k, udpRecvFrame_honoured_iff hn⟩

theorem one_hour_honoured :
    (∀ env l, Idle env l 0 →
        NoOverflow 0 3600000 ∧
          ∀ fuel, Honoured env l 3600000 (recvFrame env fuel 3600000 l)) ∧
      (∀ fuel, Honoured (steady 0) {} 3600000
        (recvFrameAs (steady 0) fuel .serial .cmd 3600000 {})) ∧
      ∀ env l, Idle env l 0 → Honoured env l 3600000 (udpRecvFrame env 3600000 l) :=
  have hall := long_timeouts_honoured_iff 0 3600000 .cmd (by decide)
  have hwaits : WaitsOut (steady 0) .cmd 0 3600000 1 ({} : FrameParser).drain.1 := by
    rw [drain_empty]
    exact .inr ⟨by decide, by decide⟩
  have hserial := (hall.2.1 (steady 0) {} (idle_steady 0)).mpr
    ⟨⟨by decide, by decide⟩, hwaits⟩
  ⟨hall.1.mpr ⟨by decide, by decide⟩, fun fuel => (hserial.2 fuel).2,
    hall.2.2.2.mpr (by decide)⟩

/-- The longest timeout ends at once, its deadline having wrapped to the time before
the call, and over UDP after `INT_MAX` milliseconds. -/
theorem longest_timeout_ends_early :
    Idle (steady 0) {} 0 ∧ ¬NoOverflow 0 9223372036854775807 ∧
      (recvFrame (steady 0) 1 9223372036854775807 {}).1 = .returned none ∧
      elapsed (steady 0) {} (recvFrame (steady 0) 1 9223372036854775807 {}).2 = 0 ∧
      (recvFrameAs (steady 0) 1 .serial .cmd 9223372036854775807 {}).1 = .returned none ∧
      elapsed (steady 0) {}
        (recvFrameAs (steady 0) 1 .serial .cmd 9223372036854775807 {}).2 = 0 ∧
      (udpRecvFrame (steady 0) 9223372036854775807 {}).1 = .returned none ∧
      elapsed (steady 0) {} (udpRecvFrame (steady 0) 9223372036854775807 {}).2 =
        2147483647 * 1000000 := by
  refine ⟨idle_steady 0, ?_, ?_⟩
  · rw [NoOverflow]
    decide
  · decide +kernel

end RovSdk.LongTimeouts
