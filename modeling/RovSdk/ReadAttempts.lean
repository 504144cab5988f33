import RovSdk.ParserSessions
import RovSdk.TypedUdpReceive

namespace RovSdk.ReadAttempts

open RovSdk.ProtocolBytes
open RovSdk.StreamParser
open RovSdk.ParserSessions
open RovSdk.Packets
open RovSdk.FrameLink
open RovSdk.Deadlines
open RovSdk.LinkConservation (passedOver_iff)
open RovSdk.TypedUdpReceive (Accepts Passes match_of_accepts match_of_neither)

variable {env : Env} {l l' l'' : Link} {n : Int64}

/-- The channel has been read, or what the parser holds has not grown. -/
def Onward (l l' : Link) : Prop :=
  l.timeouts.length < l'.timeouts.length ∨
    l.timeouts.length = l'.timeouts.length ∧ l'.parser.buf.length ≤ l.parser.buf.length

theorem onward_refl (l : Link) : Onward l l := .inr ⟨rfl, Nat.le_refl _⟩

theorem Onward.trans (h : Onward l l') (h' : Onward l' l'') : Onward l l'' := by
  rw [Onward] at *
  omega

theorem onward_tick (l : Link) : Onward l l.tick := .inr ⟨rfl, Nat.le_refl _⟩

theorem onward_ask_feed (l : Link) (timeout : Int64) (bytes : List UInt8) :
    Onward l ((l.ask timeout).feed bytes) :=
  .inl (by simp [Link.feed, Link.ask])

theorem length_le_of_nextFrame_none {p p' : FrameParser} (h : p.nextFrame = (none, p')) :
    p'.buf.length ≤ p.buf.length := by
  obtain ⟨⟨c, hadv⟩, -⟩ := advance_of_nextFrame_none 0 h
  exact hadv.suffix.length_le

theorem onward_recvFrameLoop (env : Env) (deadline : Int64) (fuel : Nat) (l : Link) :
    Onward l (recvFrameLoop env deadline fuel l).2 := by
  induction fuel generalizing l with
  | zero => exact onward_refl l
  | succ fuel ih =>
      rcases hnext : l.parser.nextFrame with ⟨_ | frame, p⟩
      · have hpolled : Onward l { l with parser := p }.tick :=
          .inr ⟨rfl, length_le_of_nextFrame_none hnext⟩
        by_cases hleft : TimeLeft deadline (env.now l.ticks)
        · rw [recvFrameLoop_of_timeLeft hnext hleft]
          cases env.recvBytes l.timeouts.length with
          | none => exact .inl (by simp [Link.ask, Link.tick])
          | some bytes => exact (hpolled.trans (onward_ask_feed _ _ bytes)).trans (ih _)
        · rw [recvFrameLoop_of_not_timeLeft hnext hleft]
          exact hpolled
      · rw [recvFrameLoop_of_some hnext]
        exact .inr ⟨rfl, (length_lt_of_nextFrame_some hnext).le⟩

theorem onward_recvFrame (env : Env) (fuel : Nat) (timeout : Int64) (l : Link) :
    Onward l (recvFrame env fuel timeout l).2 := by
  rw [recvFrame]
  split_ifs
  · exact onward_refl l
  · exact (onward_tick l).trans (onward_recvFrameLoop env _ fuel _)

theorem onward_recvFrameAsLoop (env : Env) (inner : Nat) (k : PacketType)
    (deadline : Int64) (fuel : Nat) (l : Link) :
    Onward l (recvFrameAsLoop (recvFrame env inner) env k deadline fuel l).2 := by
  induction fuel generalizing l with
  | zero => exact onward_refl l
  | succ fuel ih =>
      by_cases hleft : TimeLeft deadline (env.now l.ticks)
      · rw [recvFrameAsLoop_of_timeLeft _ _ _ hleft]
        have hrecv := onward_recvFrame env inner (remainingMillis deadline (env.now l.ticks))
          l.tick
        generalize recvFrame env inner (remainingMillis deadline (env.now l.ticks)) l.tick =
          r at hrecv ⊢
        rcases r with ⟨_ | _ | frame, l'⟩
        · exact hrecv
        · exact hrecv
        · simp only
          split_ifs
          · exact hrecv
          · exact Onward.trans hrecv (ih l')
      · rw [recvFrameAsLoop_of_not_timeLeft _ _ _ hleft]
        exact onward_tick l

/-- The call that left `l'` read from the channel, or it took a frame that the parser
already held. -/
def Attempted (l l' : Link) : Prop :=
  l.timeouts.length < l'.timeouts.length ∨
    l.parser.nextFrame.1.isSome ∧ l'.parser.buf.length < l.parser.buf.length

theorem attempted_of_asked (h : l.timeouts.length < l'.timeouts.length)
    (h' : Onward l' l'') : Attempted l l'' := by
  rw [Onward] at h'
  exact .inl (by omega)

theorem attempted_of_some {p : FrameParser} {frame : List UInt8}
    (hnext : l.parser.nextFrame = (some frame, p)) (htimeouts : l'.timeouts = l.timeouts)
    (hparser : l'.parser = p) (h' : Onward l' l'') : Attempted l l'' := by
  have hlt := length_lt_of_nextFrame_some hnext
  rcases h' with hasked | ⟨-, hle⟩
  · exact .inl (by rwa [← htimeouts])
  · exact .inr ⟨by rw [hnext]; rfl, by rw [hparser] at hle; omega⟩

section RecvFrame

variable {p : FrameParser}

theorem recvFrame_of_pos (hn : 0 < n) (fuel : Nat) :
    recvFrame env fuel n l =
      recvFrameLoop env (deadlineAfter (env.now l.ticks) n) fuel l.tick := by
  rw [recvFrame, if_neg (Int64.not_le.mpr hn)]

theorem recvFrame_of_some (hn : 0 < n) {frame : List UInt8}
    (hnext : l.parser.nextFrame = (some frame, p)) (fuel : Nat) :
    recvFrame env (fuel + 1) n l =
      (.returned (some frame), { l.tick with parser := p }) := by
  rw [recvFrame_of_pos hn, recvFrameLoop_of_some (l := l.tick) hnext]

theorem recvFrame_reads (hn : 0 < n) (hnext : l.parser.nextFrame = (none, p))
    (hleft : TimeLeft (deadlineAfter (env.now l.ticks) n) (env.now (l.ticks + 1)))
    (fuel : Nat) :
    l.timeouts.length < (recvFrame env (fuel + 1) n l).2.timeouts.length := by
  rw [recvFrame_of_pos hn, recvFrameLoop_of_timeLeft (l := l.tick) hnext hleft]
  cases env.recvBytes l.tick.timeouts.length with
  | none => simp [Link.ask, Link.tick]
  | some bytes =>
      simp only
      have hrest := onward_recvFrameLoop env (deadlineAfter (env.now l.ticks) n) fuel
        (({ l.tick with parser := p }.tick.ask (remainingMillis
          (deadlineAfter (env.now l.ticks) n) (env.now l.tick.ticks))).feed bytes)
      simp only [Onward, Link.feed, Link.ask, Link.tick, List.length_append,
        List.length_singleton] at hrest ⊢
      omega

theorem recvFrame_of_late (hn : 0 < n) (hnext : l.parser.nextFrame = (none, p))
    (hlate : ¬TimeLeft (deadlineAfter (env.now l.ticks) n) (env.now (l.ticks + 1)))
    (fuel : Nat) :
    recvFrame env (fuel + 1) n l =
      (.returned none, { l.tick with parser := p }.tick) := by
  rw [recvFrame_of_pos hn, recvFrameLoop_of_not_timeLeft (l := l.tick) hnext hlate]

theorem recvFrame_reads_iff (hn : 0 < n) :
    (∀ fuel, (recvFrame env fuel n l).1 = .returned none →
        l.timeouts.length < (recvFrame env fuel n l).2.timeouts.length) ↔
      l.parser.nextFrame.1.isSome ∨
        TimeLeft (deadlineAfter (env.now l.ticks) n) (env.now (l.ticks + 1)) := by
  constructor
  · intro h
    by_contra hneither
    rw [not_or, Bool.not_eq_true, Option.isSome_eq_false_iff, Option.isNone_iff_eq_none]
      at hneither
    obtain ⟨hnone, hlate⟩ := hneither
    have hone := h 1
    rw [recvFrame_of_late hn (Prod.ext hnone rfl) hlate] at hone
    exact absurd (hone rfl) (Nat.lt_irrefl _)
  · intro h fuel hnone
    cases fuel with
    | zero =>
        rw [recvFrame_of_pos hn] at hnone
        cases hnone
    | succ fuel =>
        rcases hnext : l.parser.nextFrame with ⟨_ | frame, p⟩
        · refine recvFrame_reads hn hnext (h.resolve_left ?_) fuel
          rw [hnext]
          exact Bool.false_ne_true
        · rw [recvFrame_of_some hn hnext] at hnone
          cases hnone

end RecvFrame

section RecvFrameAs

variable {k : PacketType}

theorem recvFrameAs_of_pos (hn : 0 < n) (fuel : Nat) :
    recvFrameAs env fuel .serial k n l =
      recvFrameAsLoop (recvFrame env fuel) env k (deadlineAfter (env.now l.ticks) n) fuel
        l.tick := by
  rw [recvFrameAs, if_neg (Int64.not_le.mpr hn)]
  rfl

/-- What the first turn leaves has read the channel or popped a frame; what follows
keeps that. -/
theorem attempted_recvFrameAs (hn : 0 < n)
    (hleft : TimeLeft (deadlineAfter (env.now l.ticks) n) (env.now (l.ticks + 1)))
    (hinner : l.parser.nextFrame.1.isSome ∨
      TimeLeft
        (deadlineAfter (env.now (l.ticks + 2))
          (remainingMillis (deadlineAfter (env.now l.ticks) n) (env.now (l.ticks + 1))))
        (env.now (l.ticks + 3))) (fuel : Nat) :
    Attempted l (recvFrameAs env (fuel + 1) .serial k n l).2 := by
  rw [recvFrameAs_of_pos hn, recvFrameAsLoop_of_timeLeft (l := l.tick) _ _ _ hleft]
  have hrest := onward_recvFrameAsLoop env (fuel + 1) k (deadlineAfter (env.now l.ticks) n)
    fuel
  rcases hnext : l.parser.nextFrame with ⟨_ | frame, p⟩
  · have hreads := recvFrame_reads (l := l.tick.tick) hleft.pos hnext
      (hinner.resolve_left (by rw [hnext]; exact Bool.false_ne_true)) fuel
    generalize hr : recvFrame env (fuel + 1) (remainingMillis (deadlineAfter (env.now l.ticks)
      n) (env.now l.tick.ticks)) l.tick.tick = r
    rw [show l.tick.ticks = l.ticks + 1 from rfl] at hr
    rw [hr] at hreads
    rcases r with ⟨_ | _ | frame, l'⟩
    · exact .inl hreads
    · exact .inl hreads
    · simp only
      split_ifs
      · exact .inl hreads
      · exact attempted_of_asked hreads (hrest l')
  · have hpopped : recvFrame env (fuel + 1) _ l.tick.tick = _ :=
      recvFrame_of_some (l := l.tick.tick) hleft.pos hnext fuel
    rw [show l.tick.ticks = l.ticks + 1 from rfl, hpopped]
    simp only
    split_ifs
    · refine attempted_of_some hnext ?_ ?_ (onward_refl _)
      · rfl
      · rfl
    · refine attempted_of_some hnext ?_ ?_ (hrest _)
      · rfl
      · rfl

theorem recvFrameAs_attempts_iff (hn : 0 < n) :
    (∀ fuel, (recvFrameAs env fuel .serial k n l).1 = .returned none →
        Attempted l (recvFrameAs env fuel .serial k n l).2) ↔
      TimeLeft (deadlineAfter (env.now l.ticks) n) (env.now (l.ticks + 1)) ∧
        (l.parser.nextFrame.1.isSome ∨
          TimeLeft
            (deadlineAfter (env.now (l.ticks + 2))
              (remainingMillis (deadlineAfter (env.now l.ticks) n) (env.now (l.ticks + 1))))
            (env.now (l.ticks + 3))) := by
  constructor
  · intro h
    have hone := h 1
    rw [recvFrameAs_of_pos hn] at hone
    have hleft : TimeLeft (deadlineAfter (env.now l.ticks) n) (env.now (l.ticks + 1)) := by
      by_contra hlate
      rw [recvFrameAsLoop_of_not_timeLeft (l := l.tick) _ _ _ hlate] at hone
      rcases hone rfl with hasked | ⟨-, hshorter⟩
      · exact absurd hasked (Nat.lt_irrefl _)
      · exact absurd hshorter (Nat.lt_irrefl _)
    refine ⟨hleft, ?_⟩
    by_contra hneither
    rw [not_or, Bool.not_eq_true, Option.isSome_eq_false_iff, Option.isNone_iff_eq_none]
      at hneither
    obtain ⟨hnone, hlate⟩ := hneither
    rw [recvFrameAsLoop_of_timeLeft (l := l.tick) _ _ _ hleft,
      show l.tick.ticks = l.ticks + 1 from rfl,
      recvFrame_of_late (l := l.tick.tick) hleft.pos (Prod.ext hnone rfl) hlate] at hone
    rcases hone rfl with hasked | ⟨hframe, -⟩
    · exact absurd hasked (Nat.lt_irrefl _)
    · rw [hnone] at hframe
      exact Bool.false_ne_true hframe
  · rintro ⟨hleft, hinner⟩ fuel hnone
    cases fuel with
    | zero =>
        rw [recvFrameAs_of_pos hn] at hnone
        cases hnone
    | succ fuel => exact attempted_recvFrameAs hn hleft hinner fuel

end RecvFrameAs

section Buffered

variable {k : PacketType} {deadline : Int64} {p : FrameParser} {frame : List UInt8}
  {inner : Nat}

/-- The deadline of the `recv_frame` that a turn calls, for the reading that the turn makes. -/
def innerDeadline (env : Env) (deadline : Int64) (i : Nat) : Int64 :=
  deadlineAfter (env.now (i + 1)) (remainingMillis deadline (env.now i))

theorem recvFrameAsLoop_of_frame (hleft : TimeLeft deadline (env.now l.ticks))
    (hnext : l.parser.nextFrame = (some frame, p)) (fuel : Nat) :
    recvFrameAsLoop (recvFrame env (inner + 1)) env k deadline (fuel + 1) l =
      if frame.length ≥ kFrameOverhead + 1 ∧ getU8 frame 4 = k.type then
        (.returned (k.decode frame), { l.tick.tick with parser := p })
      else
        recvFrameAsLoop (recvFrame env (inner + 1)) env k deadline fuel
          { l.tick.tick with parser := p } := by
  rw [recvFrameAsLoop_of_timeLeft _ _ _ hleft, recvFrame_of_some (l := l.tick) hleft.pos hnext]

/-- The frames that the parser holds are passed over up to one that decodes, with time
left at the reading before each, and behind the last of them also at the reading before
the channel is read. -/
def ReadsInTime (env : Env) (k : PacketType) (deadline : Int64) :
    Nat → List (List UInt8) → Prop
  | i, [] => TimeLeft deadline (env.now i) ∧
      TimeLeft (innerDeadline env deadline i) (env.now (i + 2))
  | i, frame :: frames => TimeLeft deadline (env.now i) ∧
      (Accepts k frame ∨ Passes k frame ∧ ReadsInTime env k deadline (i + 2) frames)

theorem ReadsInTime.timeLeft {i : Nat} {frames : List (List UInt8)}
    (h : ReadsInTime env k deadline i frames) : TimeLeft deadline (env.now i) := by
  cases frames with
  | nil => exact h.1
  | cons frame frames => exact h.1

/-- By induction on the turns: the call returns nothing only after a read. -/
theorem asked_of_readsInTime {fuel : Nat}
    (h : ReadsInTime env k deadline l.ticks l.parser.drain.1)
    (hnone : recvFrameAsLoop (recvFrame env inner) env k deadline fuel l =
      (.returned none, l')) : l.timeouts.length < l'.timeouts.length := by
  induction fuel generalizing l with
  | zero => cases hnone
  | succ fuel ih =>
      have hleft := h.timeLeft
      obtain _ | inner := inner
      · rw [recvFrameAsLoop_of_timeLeft _ _ _ hleft, recvFrame_of_pos hleft.pos] at hnone
        cases hnone
      rcases hnext : l.parser.nextFrame with ⟨_ | frame, p⟩
      · rw [drain_of_none hnext] at h
        have hreads := recvFrame_reads (l := l.tick) hleft.pos hnext h.2 inner
        rw [recvFrameAsLoop_of_timeLeft _ _ _ hleft] at hnone
        generalize recvFrame env (inner + 1) (remainingMillis deadline (env.now l.ticks)) l.tick =
          r at hreads hnone
        rcases r with ⟨_ | _ | frame, l₁⟩
        · cases hnone
        · cases hnone
          exact hreads
        · simp only at hnone
          split_ifs at hnone
          · obtain ⟨-, rfl⟩ := Prod.mk.inj hnone
            exact hreads
          · have hrest := onward_recvFrameAsLoop env (inner + 1) k deadline fuel l₁
            rw [hnone] at hrest
            rcases hrest with hasked | ⟨hsame, -⟩
            · exact hreads.trans hasked
            · exact hreads.trans_eq hsame
      · rw [drain_of_some hnext] at h
        have hvalid := validFrame_of_nextFrame_some hnext
        rw [recvFrameAsLoop_of_frame hleft hnext] at hnone
        rcases h.2 with haccepts | ⟨hpasses, hrest⟩
        · rw [if_pos (match_of_accepts haccepts)] at hnone
          have hdecode := haccepts.2
          rw [Outcome.returned.inj (congrArg Prod.fst hnone)] at hdecode
          cases hdecode
        · rw [if_neg ((passedOver_iff hvalid).mp hpasses.2)] at hnone
          exact ih (l := { l.tick.tick with parser := p }) hrest hnone

theorem exists_unread {fuel : Nat} (hfuel : l.parser.drain.1.length < fuel)
    (h : ¬ReadsInTime env k deadline l.ticks l.parser.drain.1) :
    ∃ l', recvFrameAsLoop (recvFrame env (inner + 1)) env k deadline fuel l =
        (.returned none, l') ∧ l'.timeouts = l.timeouts := by
  induction fuel generalizing l with
  | zero => exact absurd hfuel (Nat.not_lt_zero _)
  | succ fuel ih =>
      by_cases hleft : TimeLeft deadline (env.now l.ticks)
      · rcases hnext : l.parser.nextFrame with ⟨_ | frame, p⟩
        · rw [drain_of_none hnext] at h
          have hlate : ¬TimeLeft (innerDeadline env deadline l.ticks) (env.now (l.ticks + 2)) :=
            fun hinner => h ⟨hleft, hinner⟩
          rw [recvFrameAsLoop_of_timeLeft _ _ _ hleft,
            recvFrame_of_late (l := l.tick) hleft.pos hnext hlate]
          exact ⟨_, rfl, rfl⟩
        · rw [drain_of_some hnext] at h hfuel
          have hvalid := validFrame_of_nextFrame_some hnext
          rw [recvFrameAsLoop_of_frame hleft hnext]
          have hrejects : ¬Accepts k frame := fun haccepts => h ⟨hleft, .inl haccepts⟩
          by_cases hpasses : Passes k frame
          · rw [if_neg ((passedOver_iff hvalid).mp hpasses.2)]
            exact ih (l := { l.tick.tick with parser := p }) (Nat.lt_of_succ_lt_succ hfuel)
              fun hrest => h ⟨hleft, .inr ⟨hpasses, hrest⟩⟩
          · obtain ⟨hmatch, hdecode⟩ := match_of_neither hvalid hrejects hpasses
            rw [if_pos hmatch, hdecode]
            exact ⟨_, rfl, rfl⟩
      · rw [recvFrameAsLoop_of_not_timeLeft _ _ _ hleft]
        exact ⟨_, rfl, rfl⟩

theorem recvFrameAs_reads_iff (hn : 0 < n) :
    (∀ fuel, (recvFrameAs env fuel .serial k n l).1 = .returned none →
        l.timeouts.length < (recvFrameAs env fuel .serial k n l).2.timeouts.length) ↔
      ReadsInTime env k (deadlineAfter (env.now l.ticks) n) (l.ticks + 1)
        l.parser.drain.1 := by
  constructor
  · intro h
    by_contra hunread
    have hturns : l.tick.parser.drain.1.length < l.parser.drain.1.length + 1 :=
      Nat.lt_succ_self _
    obtain ⟨l', hloop, htimeouts⟩ := exists_unread hturns hunread
    have hcall := h (l.parser.drain.1.length + 1)
    rw [recvFrameAs_of_pos hn, hloop, htimeouts] at hcall
    exact absurd (hcall rfl) (Nat.lt_irrefl _)
  · intro h fuel hnone
    rw [recvFrameAs_of_pos hn] at hnone ⊢
    exact asked_of_readsInTime (l := l.tick) h (Prod.ext hnone rfl)

end Buffered

/-- Bytes wait in the channel, and the call that left `l'` made no attempt to read them. -/
def LeavesUnread (env : Env) (l l' : Link) : Prop :=
  (env.recvBytes l.timeouts.length).isSome ∧ ¬l.timeouts.length < l'.timeouts.length

theorem never_leavesUnread_iff {α : Type} {call : Nat → Outcome α × Link} {cond : Prop}
    (h : (∀ fuel, (call fuel).1 = .returned none →
      l.timeouts.length < (call fuel).2.timeouts.length) ↔ cond) :
    (∀ fuel, (call fuel).1 = .returned none → ¬LeavesUnread env l (call fuel).2) ↔
      env.recvBytes l.timeouts.length = none ∨ cond := by
  rw [← h]
  rcases hbytes : env.recvBytes l.timeouts.length with _ | bytes
  · simp [LeavesUnread, hbytes]
  · simp [LeavesUnread, hbytes]

/-- A receive call with a positive timeout makes at least one attempt to read exactly
when the test on what remains, cut to whole milliseconds, leaves time for it: at the
first reading after the start of `recv_frame`, and in `recv_frame_as` both at the first
reading of the outer loop and at that of the `recv_frame` it calls.  It returns nothing
while bytes wait unread, for want of any attempt to read them, unless this is so behind
every frame that the parser holds. -/
theorem positive_timeout_attempts_iff (env : Env) (l : Link) (k : PacketType) (n : Int64)
    (hn : 0 < n) :
    ((∀ fuel, (recvFrame env fuel n l).1 = .returned none →
          l.timeouts.length < (recvFrame env fuel n l).2.timeouts.length) ↔
        l.parser.nextFrame.1.isSome ∨
          TimeLeft (deadlineAfter (env.now l.ticks) n) (env.now (l.ticks + 1))) ∧
      ((∀ fuel, (recvFrameAs env fuel .serial k n l).1 = .returned none →
          Attempted l (recvFrameAs env fuel .serial k n l).2) ↔
        TimeLeft (deadlineAfter (env.now l.ticks) n) (env.now (l.ticks + 1)) ∧
          (l.parser.nextFrame.1.isSome ∨
            TimeLeft
              (deadlineAfter (env.now (l.ticks + 2))
                (remainingMillis (deadlineAfter (env.now l.ticks) n)
                  (env.now (l.ticks + 1))))
              (env.now (l.ticks + 3)))) ∧
      ((∀ fuel, (recvFrame env fuel n l).1 = .returned none →
          ¬LeavesUnread env l (recvFrame env fuel n l).2) ↔
        env.recvBytes l.timeouts.length = none ∨ l.parser.nextFrame.1.isSome ∨
          TimeLeft (deadlineAfter (env.now l.ticks) n) (env.now (l.ticks + 1))) ∧
      ((∀ fuel, (recvFrameAs env fuel .serial k n l).1 = .returned none →
          ¬LeavesUnread env l (recvFrameAs env fuel .serial k n l).2) ↔
        env.recvBytes l.timeouts.length = none ∨
          ReadsInTime env k (deadlineAfter (env.now l.ticks) n) (l.ticks + 1)
            l.parser.drain.1) :=
  ⟨recvFrame_reads_iff hn, recvFrameAs_attempts_iff hn,
    never_leavesUnread_iff (recvFrame_reads_iff hn),
    never_leavesUnread_iff (recvFrameAs_reads_iff hn)⟩

/-- Every reading after the first is one nanosecond later; a command waits. -/
def nanosecondLater : Env where
  now i := if i = 0 then 0 else 1
  recvBytes _ := some (encodeCmd {})

theorem two_milliseconds_attempt :
    (∀ fuel, (recvFrame nanosecondLater fuel 2 {}).1 = .returned none →
        ({} : Link).timeouts.length <
          (recvFrame nanosecondLater fuel 2 {}).2.timeouts.length) ∧
      (∀ fuel, (recvFrameAs nanosecondLater fuel .serial .cmd 2 {}).1 = .returned none →
        Attempted {} (recvFrameAs nanosecondLater fuel .serial .cmd 2 {}).2) ∧
      ∀ fuel, (recvFrameAs nanosecondLater fuel .serial .cmd 2 {}).1 = .returned none →
        ¬LeavesUnread nanosecondLater {} (recvFrameAs nanosecondLater fuel .serial .cmd 2 {}).2 :=
  have hall := positive_timeout_attempts_iff nanosecondLater {} .cmd 2 (by decide)
  have hempty : ({} : FrameParser).drain.1 = [] := by decide
  ⟨hall.1.mpr (.inr (by decide)), hall.2.1.mpr ⟨by decide, .inr (by decide)⟩,
    hall.2.2.2.mpr (.inr (by rw [hempty]; exact ⟨by decide, by decide⟩))⟩

theorem one_millisecond_no_attempt :
    (∀ i j, i ≤ j → nanosecondLater.now i ≤ nanosecondLater.now j) ∧
      (∀ i, (nanosecondLater.now i).toInt < (nanosecondLater.now 0).toInt + 1 * 1000000) ∧
      nanosecondLater.recvBytes 0 = some (encodeCmd {}) ∧
      ∀ fuel, 0 < fuel →
        (recvFrame nanosecondLater fuel 1 {}).1 = .returned none ∧
          (recvFrame nanosecondLater fuel 1 {}).2.timeouts = [] ∧
          (recvFrameAs nanosecondLater fuel .serial .cmd 1 {}).1 = .returned none ∧
          (recvFrameAs nanosecondLater fuel .serial .cmd 1 {}).2.timeouts = [] := by
  refine ⟨fun i j hij => ?_, fun i => ?_, rfl, fun fuel hfuel => ?_⟩
  · simp only [nanosecondLater]
    split_ifs with hi hj
    · decide
    · decide
    · omega
    · decide
  · simp only [nanosecondLater]
    split_ifs <;> decide
  · obtain ⟨fuel, rfl⟩ : ∃ m, fuel = m + 1 := ⟨fuel - 1, by omega⟩
    have hempty : ({} : FrameParser).nextFrame = (none, {}) := by decide
    have hlate : ¬TimeLeft (deadlineAfter (nanosecondLater.now 0) 1)
        (nanosecondLater.now 1) := by decide
    rw [recvFrame_of_late (l := {}) (by decide) hempty hlate,
      recvFrameAs_of_pos (by decide),
      recvFrameAsLoop_of_not_timeLeft (l := Link.tick {}) _ _ _ hlate]
    exact ⟨rfl, rfl, rfl, rfl⟩

end RovSdk.ReadAttempts
