import RovSdk.ReadAttempts
import RovSdk.TypedUdpReceive

namespace RovSdk.TypedStreamReceive

open RovSdk.ProtocolBytes
open RovSdk.FrameFormat
open RovSdk.StreamParser
open RovSdk.ParserSessions
open RovSdk.Packets
open RovSdk.PacketRoundtrip
open RovSdk.FrameLink
open RovSdk.Deadlines
open RovSdk.LinkConservation
open RovSdk.ReadAttempts
open RovSdk.TypedUdpReceive (Accepts Passes firstAccepted firstAccepted_cons_of_accepts
  firstAccepted_cons_of_not_accepts firstAccepted_eq_none_iff match_of_accepts
  match_of_neither delivering)

variable {env : Env} {l l' : Link} {n deadline : Int64} {k : PacketType}
  {chunk frame : List UInt8} {chunks chunks' : List (List UInt8)}

def Arrives (env : Env) (l : Link) (chunks : List (List UInt8)) : Prop :=
  ∀ j chunk, chunks[j]? = some chunk → env.recvBytes (l.timeouts.length + j) = some chunk

theorem Arrives.head (h : Arrives env l (chunk :: chunks)) :
    env.recvBytes l.timeouts.length = some chunk :=
  h 0 chunk rfl

theorem Arrives.tail (h : Arrives env l (chunk :: chunks))
    (hasked : l'.timeouts.length = l.timeouts.length + 1) : Arrives env l' chunks := by
  intro j c hc
  rw [hasked, Nat.add_assoc, Nat.add_comm 1]
  exact h (j + 1) c hc

/-- The frames that the parser extracts from what it holds and the chunks to come. -/
def framesAhead (p : FrameParser) (chunks : List (List UInt8)) : List (List UInt8) :=
  (p.feed chunks.flatten).drain.1

theorem framesAhead_of_some {p p' : FrameParser} (h : p.nextFrame = (some frame, p'))
    (chunks : List (List UInt8)) :
    framesAhead p chunks = frame :: framesAhead p' chunks :=
  drain_feed_of_some h _

theorem framesAhead_of_none {p p' : FrameParser} (h : p.nextFrame = (none, p'))
    (chunk : List UInt8) (chunks : List (List UInt8)) :
    framesAhead p (chunk :: chunks) = framesAhead (p'.feed chunk) chunks := by
  rw [framesAhead, drain_feed_of_none h, framesAhead, List.flatten_cons]
  simp only [FrameParser.feed, List.append_assoc]

theorem framesAhead_nil_of_none {p p' : FrameParser} (h : p.nextFrame = (none, p')) :
    framesAhead p [] = [] := by
  rw [framesAhead, List.flatten_nil, feed_nil, drain_of_none h]

/-- What lies before a call: the number of its next reading of the clock, its parser,
and the chunks to come. -/
structure Ahead where
  reading : Nat
  parser : FrameParser
  chunks : List (List UInt8)

/-- `recv_frame` extracts a frame, with time left at the reading before each chunk that
it needs for it. -/
inductive Extracts (env : Env) (deadline : Int64) : Ahead → List UInt8 → Ahead → Prop
  | frame {i : Nat} {p p' : FrameParser} {chunks : List (List UInt8)} {frame : List UInt8} :
      p.nextFrame = (some frame, p') →
      Extracts env deadline ⟨i, p, chunks⟩ frame ⟨i, p', chunks⟩
  | read {i : Nat} {p p' : FrameParser} {chunk : List UInt8} {chunks : List (List UInt8)}
      {frame : List UInt8} {a : Ahead} :
      p.nextFrame = (none, p') → TimeLeft deadline (env.now i) →
      Extracts env deadline ⟨i + 1, p'.feed chunk, chunks⟩ frame a →
      Extracts env deadline ⟨i, p, chunk :: chunks⟩ frame a

theorem extracts_read_iff {i : Nat} {p p' : FrameParser} {chunk frame : List UInt8}
    {chunks : List (List UInt8)} {a : Ahead} (hnext : p.nextFrame = (none, p')) :
    Extracts env deadline ⟨i, p, chunk :: chunks⟩ frame a ↔ TimeLeft deadline (env.now i) ∧
      Extracts env deadline ⟨i + 1, p'.feed chunk, chunks⟩ frame a := by
  constructor
  · intro h
    cases h with
    | frame hnext' =>
        rw [hnext] at hnext'
        cases hnext'
    | read hnext' hleft hrest =>
        rw [hnext] at hnext'
        cases hnext'
        exact ⟨hleft, hrest⟩
  · rintro ⟨hleft, hrest⟩
    exact .read hnext hleft hrest

theorem Extracts.det {a a₁ a₂ : Ahead} {frame₁ frame₂ : List UInt8}
    (h₁ : Extracts env deadline a frame₁ a₁) (h₂ : Extracts env deadline a frame₂ a₂) :
    frame₁ = frame₂ ∧ a₁ = a₂ := by
  induction h₁ with
  | frame hnext =>
      cases h₂ with
      | frame hnext₂ =>
          rw [hnext] at hnext₂
          cases hnext₂
          exact ⟨rfl, rfl⟩
      | read hnext₂ =>
          rw [hnext] at hnext₂
          cases hnext₂
  | read hnext _ _ ih => exact ih ((extracts_read_iff hnext).mp h₂).2

theorem Extracts.validFrame {a a' : Ahead} (h : Extracts env deadline a frame a') :
    ValidFrame frame := by
  induction h with
  | frame hnext => exact validFrame_of_nextFrame_some hnext
  | read _ _ _ ih => exact ih

/-- While frames are ahead, the loop of `recv_frame` either extracts the first one or
finds the time up before. -/
theorem recvFrameLoop_stream {fuel : Nat} (harrives : Arrives env l chunks)
    (hfuel : chunks.length < fuel) (hahead : framesAhead l.parser chunks ≠ []) :
    (∃ frame l' chunks', recvFrameLoop env deadline fuel l = (.returned (some frame), l') ∧
        Extracts env deadline ⟨l.ticks, l.parser, chunks⟩ frame
          ⟨l'.ticks, l'.parser, chunks'⟩ ∧
        Arrives env l' chunks' ∧ chunks'.length ≤ chunks.length ∧
        framesAhead l.parser chunks = frame :: framesAhead l'.parser chunks') ∨
      ((∃ l', recvFrameLoop env deadline fuel l = (.returned none, l')) ∧
        ∀ frame a, ¬Extracts env deadline ⟨l.ticks, l.parser, chunks⟩ frame a) := by
  obtain ⟨fuel, rfl⟩ : ∃ m, fuel = m + 1 := ⟨fuel - 1, by omega⟩
  induction chunks generalizing l fuel with
  | nil =>
      rcases hnext : l.parser.nextFrame with ⟨_ | frame, p⟩
      · exact absurd (framesAhead_nil_of_none hnext) hahead
      · exact .inl ⟨frame, { l with parser := p }, [], recvFrameLoop_of_some hnext fuel,
          .frame hnext, harrives, Nat.le_refl _, framesAhead_of_some hnext []⟩
  | cons chunk chunks ih =>
      rcases hnext : l.parser.nextFrame with ⟨_ | frame, p⟩
      · by_cases hleft : TimeLeft deadline (env.now l.ticks)
        · obtain ⟨fuel, rfl⟩ : ∃ m, fuel = m + 1 := ⟨fuel - 1, by simp at hfuel; omega⟩
          have hsplit := framesAhead_of_none hnext chunk chunks
          rw [recvFrameLoop_of_timeLeft hnext hleft, harrives.head]
          simp only
          rw [hsplit] at hahead
          have hmore := ih (l := ({ l with parser := p }.tick.ask
            (remainingMillis deadline (env.now l.ticks))).feed chunk)
            (harrives.tail (by simp [Link.feed, Link.ask, Link.tick])) hahead fuel
            (by simpa using hfuel)
          rcases hmore with ⟨frame, l', chunks', hloop, hext, harr, hle, hframes⟩ |
            ⟨hloop, hnone⟩
          · exact .inl ⟨frame, l', chunks', hloop, .read hnext hleft hext, harr,
              Nat.le_succ_of_le hle, hsplit.trans hframes⟩
          · exact .inr ⟨hloop, fun frame a hext =>
              hnone frame a ((extracts_read_iff hnext).mp hext).2⟩
        · rw [recvFrameLoop_of_not_timeLeft hnext hleft]
          exact .inr ⟨⟨_, rfl⟩, fun frame a hext =>
            hleft ((extracts_read_iff hnext).mp hext).1⟩
      · exact .inl ⟨frame, { l with parser := p }, chunk :: chunks,
          recvFrameLoop_of_some hnext fuel, .frame hnext, harrives, Nat.le_refl _,
          framesAhead_of_some hnext _⟩

/-- `recv_frame_as` comes to a frame that decodes: it has time left at its own reading
of the clock before each frame and at those of the `recv_frame` it calls, and passes over
every frame before. -/
inductive Reached (env : Env) (k : PacketType) (deadline : Int64) : Ahead → Prop
  | here {a a' : Ahead} {frame : List UInt8} :
      TimeLeft deadline (env.now a.reading) →
      Extracts env
        (deadlineAfter (env.now (a.reading + 1))
          (remainingMillis deadline (env.now a.reading)))
        { a with reading := a.reading + 2 } frame a' →
      Accepts k frame → Reached env k deadline a
  | later {a a' : Ahead} {frame : List UInt8} :
      TimeLeft deadline (env.now a.reading) →
      Extracts env
        (deadlineAfter (env.now (a.reading + 1))
          (remainingMillis deadline (env.now a.reading)))
        { a with reading := a.reading + 2 } frame a' →
      Passes k frame → Reached env k deadline a' → Reached env k deadline a

theorem Reached.timeLeft {a : Ahead} (h : Reached env k deadline a) :
    TimeLeft deadline (env.now a.reading) := by
  cases h with
  | here hleft => exact hleft
  | later hleft => exact hleft

theorem reached_iff_of_extracts {a a' : Ahead}
    (hleft : TimeLeft deadline (env.now a.reading))
    (hext : Extracts env
      (deadlineAfter (env.now (a.reading + 1)) (remainingMillis deadline (env.now a.reading)))
      { a with reading := a.reading + 2 } frame a') :
    Reached env k deadline a ↔
      Accepts k frame ∨ Passes k frame ∧ Reached env k deadline a' := by
  constructor
  · intro h
    cases h with
    | here _ hext' haccepts =>
        obtain ⟨rfl, -⟩ := hext.det hext'
        exact .inl haccepts
    | later _ hext' hpasses hrest =>
        obtain ⟨rfl, rfl⟩ := hext.det hext'
        exact .inr ⟨hpasses, hrest⟩
  · rintro (haccepts | ⟨hpasses, hrest⟩)
    · exact .here hleft hext haccepts
    · exact .later hleft hext hpasses hrest

theorem Reached.extracts {a : Ahead} (h : Reached env k deadline a) :
    ∃ frame a', Extracts env
      (deadlineAfter (env.now (a.reading + 1)) (remainingMillis deadline (env.now a.reading)))
      { a with reading := a.reading + 2 } frame a' := by
  cases h with
  | here _ hext => exact ⟨_, _, hext⟩
  | later _ hext => exact ⟨_, _, hext⟩

theorem firstAccepted_ne_none {frames : List (List UInt8)} (h : ∃ f ∈ frames, Accepts k f) :
    firstAccepted k frames ≠ none := by
  rw [ne_eq, firstAccepted_eq_none_iff]
  intro hnone
  obtain ⟨f, hf, haccepts⟩ := h
  exact hnone f hf haccepts

/-- By induction on the turns: each one takes the first frame ahead. -/
theorem recvFrameAsLoop_serial_eq_iff {inner fuel : Nat} (harrives : Arrives env l chunks)
    (hinner : chunks.length < inner)
    (hfuel : (framesAhead l.parser chunks).length ≤ fuel)
    (hexists : ∃ f ∈ framesAhead l.parser chunks, Accepts k f) :
    (recvFrameAsLoop (recvFrame env inner) env k deadline fuel l).1 =
        .returned (firstAccepted k (framesAhead l.parser chunks)) ↔
      Reached env k deadline ⟨l.ticks, l.parser, chunks⟩ := by
  induction fuel generalizing l chunks with
  | zero =>
      obtain ⟨f, hf, -⟩ := hexists
      rw [List.eq_nil_of_length_eq_zero (Nat.le_zero.mp hfuel)] at hf
      cases hf
  | succ fuel ih =>
      have hsome := firstAccepted_ne_none hexists
      by_cases hleft : TimeLeft deadline (env.now l.ticks)
      · rw [recvFrameAsLoop_of_timeLeft _ _ _ hleft, recvFrame_of_pos hleft.pos]
        have hahead : framesAhead l.tick.tick.parser chunks ≠ [] := by
          obtain ⟨f, hf, -⟩ := hexists
          exact List.ne_nil_of_mem hf
        rcases recvFrameLoop_stream (l := l.tick.tick) harrives hinner hahead with
          ⟨frame, l', chunks', hrecv, hext, harr, hle, hframes⟩ | ⟨⟨l', hrecv⟩, hnone⟩
        · rw [show l.tick.ticks = l.ticks + 1 from rfl, hrecv,
            reached_iff_of_extracts (a := ⟨l.ticks, l.parser, chunks⟩) hleft hext]
          have hvalid := hext.validFrame
          rw [show framesAhead l.parser chunks = _ from hframes] at hexists hfuel hsome ⊢
          simp only
          by_cases haccepts : Accepts k frame
          · rw [if_pos (match_of_accepts haccepts), firstAccepted_cons_of_accepts haccepts]
            exact iff_of_true rfl (.inl haccepts)
          rw [firstAccepted_cons_of_not_accepts haccepts] at hsome ⊢
          by_cases hpasses : Passes k frame
          · rw [if_neg ((passedOver_iff hvalid).mp hpasses.2),
              ih harr (hle.trans_lt hinner) (by simpa using hfuel)
                (by simpa [haccepts] using hexists)]
            simp only [haccepts, hpasses, true_and, false_or]
          · obtain ⟨hmatch, hdecode⟩ := match_of_neither hvalid haccepts hpasses
            rw [if_pos hmatch, hdecode]
            refine iff_of_false (fun h => hsome ?_) (by simp [haccepts, hpasses])
            exact (Outcome.returned.inj h).symm
        · refine iff_of_false (fun h => hsome ?_) (fun h => ?_)
          · rw [show l.tick.ticks = l.ticks + 1 from rfl, hrecv] at h
            exact (Outcome.returned.inj h).symm
          · obtain ⟨frame, a', hext⟩ := h.extracts
            exact hnone frame a' hext
      · rw [recvFrameAsLoop_of_not_timeLeft _ _ _ hleft]
        exact iff_of_false (fun h => hsome (Outcome.returned.inj h).symm)
          (fun h => hleft h.timeLeft)

theorem Extracts.framesAhead_eq {a a' : Ahead} (h : Extracts env deadline a frame a') :
    framesAhead a.parser a.chunks = frame :: framesAhead a'.parser a'.chunks := by
  induction h with
  | frame hnext => exact framesAhead_of_some hnext _
  | @read _ _ _ chunk chunks _ _ hnext _ _ ih =>
      exact (framesAhead_of_none hnext chunk chunks).trans ih

/-- The frames before the first that decodes are all passed over. -/
def ReachedByFrames (k : PacketType) (frames : List (List UInt8)) : Prop :=
  ∃ before frame after, frames = before ++ frame :: after ∧
    (∀ e ∈ before, Passes k e) ∧ Accepts k frame

theorem Reached.byFrames {a : Ahead} (h : Reached env k deadline a) :
    ReachedByFrames k (framesAhead a.parser a.chunks) := by
  induction h with
  | @here _ _ frame _ hext haccepts =>
      exact ⟨[], frame, _, hext.framesAhead_eq, by simp, haccepts⟩
  | @later _ _ frame _ hext hpasses _ ih =>
      obtain ⟨before, last, after, hframes, hbefore, haccepts⟩ := ih
      refine ⟨frame :: before, last, after, ?_, List.forall_mem_cons.mpr ⟨hpasses, hbefore⟩,
        haccepts⟩
      rw [List.cons_append, ← hframes]
      exact hext.framesAhead_eq

theorem exists_extracts {a : Ahead} {rest : List (List UInt8)}
    (hframes : framesAhead a.parser a.chunks = frame :: rest)
    (htime : ∀ i, a.reading ≤ i → i < a.reading + a.chunks.length →
      TimeLeft deadline (env.now i)) :
    ∃ a', Extracts env deadline a frame a' ∧ framesAhead a'.parser a'.chunks = rest ∧
      a.reading ≤ a'.reading ∧
        a'.reading + a'.chunks.length = a.reading + a.chunks.length := by
  obtain ⟨i, p, chunks⟩ := a
  simp only at hframes htime ⊢
  induction chunks generalizing i p with
  | nil =>
      rcases hnext : p.nextFrame with ⟨_ | frame', p'⟩
      · rw [framesAhead_nil_of_none hnext] at hframes
        cases hframes
      · rw [framesAhead_of_some hnext] at hframes
        obtain ⟨rfl, rfl⟩ := List.cons.inj hframes
        exact ⟨⟨i, p', []⟩, .frame hnext, rfl, Nat.le_refl _, rfl⟩
  | cons chunk chunks ih =>
      rcases hnext : p.nextFrame with ⟨_ | frame', p'⟩
      · rw [framesAhead_of_none hnext] at hframes
        obtain ⟨a', hext, hrest, hle, hsum⟩ := ih (i + 1) (p'.feed chunk) hframes
          (fun j hj hlt => htime j (by omega) (by simp only [List.length_cons]; omega))
        refine ⟨a', .read hnext (htime i (Nat.le_refl _) (by simp)) hext, hrest, by omega, ?_⟩
        simp only [List.length_cons]
        omega
      · rw [framesAhead_of_some hnext] at hframes
        obtain ⟨rfl, rfl⟩ := List.cons.inj hframes
        exact ⟨⟨i, p', chunk :: chunks⟩, .frame hnext, rfl, Nat.le_refl _, rfl⟩

def TwoRemain (start timeout now : Int64) : Prop :=
  2000000 ≤ start.toInt + timeout.toInt * 1000000 - now.toInt

/-- The deadlines fit, also that of a `recv_frame` called late in the timeout. -/
def DeadlinesFit (start timeout : Int64) : Prop :=
  start.toInt + 2 * timeout.toInt * 1000000 < 2 ^ 63

theorem timeLeft_of_twoRemain {start now : Int64} (hn : 0 < n) (hfits : DeadlinesFit start n)
    (hafter : start.toInt ≤ now.toInt) (h : TwoRemain start n now) :
    TimeLeft (deadlineAfter start n) now ∧
      (deadlineAfter start n).toInt = start.toInt + n.toInt * 1000000 := by
  have hpos := hn
  rw [Int64.lt_iff_toInt_lt, Int64.toInt_zero] at hpos
  have hstart := start.le_toInt
  rw [DeadlinesFit] at hfits
  rw [TwoRemain] at h
  have hdeadline : (deadlineAfter start n).toInt = start.toInt + n.toInt * 1000000 := by
    rw [toInt_deadlineAfter, Int.bmod_eq_of_le (by omega) (by omega)]
  rw [TimeLeft, hdeadline]
  omega

/-- Of the two milliseconds each truncation may cost one. -/
theorem timeLeft_inner {start now₁ now₂ now₃ : Int64} (hn : 0 < n)
    (hfits : DeadlinesFit start n) (h₀₁ : start.toInt ≤ now₁.toInt)
    (h₁₂ : now₁.toInt ≤ now₂.toInt) (h₂₃ : now₂.toInt ≤ now₃.toInt)
    (htwo₁ : TwoRemain start n now₁) (htwo₂ : TwoRemain start n now₂)
    (htwo₃ : TwoRemain start n now₃) :
    TimeLeft (deadlineAfter now₂ (remainingMillis (deadlineAfter start n) now₁)) now₃ := by
  obtain ⟨hleft, hdeadline⟩ := timeLeft_of_twoRemain hn hfits h₀₁ htwo₁
  have hrem := toInt_remainingMillis_of_timeLeft hleft
  have hlow := now₂.le_toInt
  have hstart := start.le_toInt
  rw [hdeadline] at hrem
  rw [DeadlinesFit] at hfits
  rw [TwoRemain] at htwo₁ htwo₂ htwo₃
  rw [TimeLeft, toInt_deadlineAfter, Int.bmod_eq_of_le (by omega) (by omega)]
  omega

section InTime

variable {start : Int64} {a : Ahead}

theorem exists_extracts_in_time (hn : 0 < n) (hfits : DeadlinesFit start n)
    (hclock : ∀ i j, i ≤ j → (env.now i).toInt ≤ (env.now j).toInt)
    {rest : List (List UInt8)} (hframes : framesAhead a.parser a.chunks = frame :: rest)
    (hstart : start.toInt ≤ (env.now a.reading).toInt)
    (htwo : ∀ i, i < 2 + a.chunks.length → TwoRemain start n (env.now (a.reading + i))) :
    TimeLeft (deadlineAfter start n) (env.now a.reading) ∧
      ∃ a', Extracts env
          (deadlineAfter (env.now (a.reading + 1))
            (remainingMillis (deadlineAfter start n) (env.now a.reading)))
          { a with reading := a.reading + 2 } frame a' ∧
        framesAhead a'.parser a'.chunks = rest ∧ a.reading ≤ a'.reading ∧
          a'.reading + a'.chunks.length = a.reading + 2 + a.chunks.length := by
  have hhere : TwoRemain start n (env.now a.reading) := htwo 0 (by omega)
  refine ⟨(timeLeft_of_twoRemain hn hfits hstart hhere).1, ?_⟩
  have htime : ∀ i, a.reading + 2 ≤ i → i < a.reading + 2 + a.chunks.length →
      TimeLeft (deadlineAfter (env.now (a.reading + 1))
        (remainingMillis (deadlineAfter start n) (env.now a.reading))) (env.now i) := by
    intro i hi hlt
    have hlast := htwo (i - a.reading) (by omega)
    rw [Nat.add_sub_cancel' (by omega)] at hlast
    exact timeLeft_inner hn hfits hstart (hclock _ _ (Nat.le_succ _)) (hclock _ _ (by omega))
      hhere (htwo 1 (by omega)) hlast
  obtain ⟨a', hext, hrest, hle, hsum⟩ :=
    exists_extracts (a := { a with reading := a.reading + 2 }) hframes htime
  exact ⟨a', hext, hrest, (Nat.le_add_right _ 2).trans hle, hsum⟩

theorem reached_of_byFrames (hn : 0 < n) (hfits : DeadlinesFit start n)
    (hclock : ∀ i j, i ≤ j → (env.now i).toInt ≤ (env.now j).toInt)
    {before after : List (List UInt8)} (hbefore : ∀ e ∈ before, Passes k e)
    (haccepts : Accepts k frame)
    (hframes : framesAhead a.parser a.chunks = before ++ frame :: after)
    (hstart : start.toInt ≤ (env.now a.reading).toInt)
    (htwo : ∀ i, i < 2 * (before.length + 1) + a.chunks.length →
      TwoRemain start n (env.now (a.reading + i))) :
    Reached env k (deadlineAfter start n) a := by
  induction before generalizing a with
  | nil =>
      obtain ⟨hleft, a', hext, -⟩ := exists_extracts_in_time hn hfits hclock hframes hstart
        (fun i hi => htwo i (by simpa using hi))
      exact .here hleft hext haccepts
  | cons e before ih =>
      obtain ⟨hpasses, hrest⟩ := List.forall_mem_cons.mp hbefore
      rw [List.length_cons] at htwo
      obtain ⟨hleft, a', hext, hframes', hle, hsum⟩ := exists_extracts_in_time hn hfits hclock
        hframes hstart (fun i hi => htwo i (by omega))
      refine .later hleft hext hpasses (ih hrest hframes' ?_ fun i hi => ?_)
      · exact hstart.trans (hclock _ _ hle)
      · have hnext := htwo (a'.reading - a.reading + i) (by omega)
        rwa [← Nat.add_assoc, Nat.add_sub_cancel' hle] at hnext

end InTime

/-- If one of the frames ahead decodes as a packet of the type wanted, the call returns
the packet of the first. -/
def ReturnsFirst (env : Env) (fuel : Nat) (k : PacketType) (n : Int64) (l : Link)
    (chunks : List (List UInt8)) : Prop :=
  (∃ frame ∈ framesAhead l.parser chunks, Accepts k frame) →
    (recvFrameAs env fuel .serial k n l).1 =
      .returned (firstAccepted k (framesAhead l.parser chunks))

theorem returnsFirst_iff (harrives : Arrives env l chunks) {fuel : Nat}
    (hfuel : (framesAhead l.parser chunks).length + chunks.length < fuel) :
    ReturnsFirst env fuel k n l chunks ↔
      (∀ frame ∈ framesAhead l.parser chunks, ¬Accepts k frame) ∨
        0 < n ∧ Reached env k (deadlineAfter (env.now l.ticks) n)
          ⟨l.ticks + 1, l.parser, chunks⟩ := by
  by_cases hexists : ∃ frame ∈ framesAhead l.parser chunks, Accepts k frame
  · have hnotall : ¬∀ frame ∈ framesAhead l.parser chunks, ¬Accepts k frame := by
      simpa using hexists
    rw [ReturnsFirst, or_iff_right hnotall, forall_prop_of_true hexists]
    by_cases hn : 0 < n
    · rw [recvFrameAs_of_pos hn, and_iff_right hn]
      exact recvFrameAsLoop_serial_eq_iff (l := l.tick) harrives (by omega)
        (Nat.le_of_lt (Nat.lt_of_le_of_lt (Nat.le_add_right _ _) hfuel)) hexists
    · rw [recvFrameAs, if_pos (Int64.not_lt.mp hn)]
      exact iff_of_false
        (fun h => firstAccepted_ne_none hexists (Outcome.returned.inj h).symm)
        (fun h => hn h.1)
  · exact iff_of_true (fun h => absurd h hexists) (.inl (by simpa using hexists))

/-- A typed receive over a stream returns the packet of the first frame that decodes
exactly when it comes to that frame; and while two milliseconds of a timeout whose
deadlines fit in 64 bits remain, exactly when every frame before it is of another type
or has an empty payload. -/
theorem recvFrameAs_serial_returns_first_iff (harrives : Arrives env l chunks) {fuel : Nat}
    (hfuel : (framesAhead l.parser chunks).length + chunks.length < fuel) :
    (ReturnsFirst env fuel k n l chunks ↔
        (∀ frame ∈ framesAhead l.parser chunks, ¬Accepts k frame) ∨
          0 < n ∧ Reached env k (deadlineAfter (env.now l.ticks) n)
            ⟨l.ticks + 1, l.parser, chunks⟩) ∧
      ((∀ i j, i ≤ j → (env.now i).toInt ≤ (env.now j).toInt) →
        (∀ i ≤ 2 * (framesAhead l.parser chunks).length + chunks.length,
          TwoRemain (env.now l.ticks) n (env.now (l.ticks + i))) →
        DeadlinesFit (env.now l.ticks) n →
        (ReturnsFirst env fuel k n l chunks ↔
          (∀ frame ∈ framesAhead l.parser chunks, ¬Accepts k frame) ∨
            ReachedByFrames k (framesAhead l.parser chunks))) := by
  refine ⟨returnsFirst_iff harrives hfuel, fun hclock htwo hfits => ?_⟩
  rw [returnsFirst_iff harrives hfuel]
  refine or_congr_right ⟨fun h => h.2.byFrames, fun h => ?_⟩
  have hn : 0 < n := by
    have hstart := htwo 0 (Nat.zero_le _)
    rw [TwoRemain, Nat.add_zero] at hstart
    rw [Int64.lt_iff_toInt_lt, Int64.toInt_zero]
    omega
  obtain ⟨before, frame, after, hframes, hbefore, haccepts⟩ := h
  refine ⟨hn, reached_of_byFrames hn hfits hclock hbefore haccepts hframes
    (hclock _ _ (Nat.le_succ _)) fun i hi => ?_⟩
  have hlength := congrArg List.length hframes
  rw [List.length_append, List.length_cons] at hlength
  rw [Nat.add_assoc]
  exact htwo (1 + i) (by simp only at hi; omega)

theorem arrives_delivering (chunks : List (List UInt8)) :
    Arrives (delivering chunks) {} chunks := fun _ _ hchunk => by simpa [delivering] using hchunk

theorem command_after_short_telemetry :
    ReturnsFirst (delivering [encodeFrame [0] kTypeTele, encodeCmd {}]) 5 .cmd 1000 {}
      [encodeFrame [0] kTypeTele, encodeCmd {}] := by
  have hframes : framesAhead {} [encodeFrame [0] kTypeTele, encodeCmd {}] =
      [encodeFrame [0] kTypeTele] ++ encodeCmd {} :: [] := by decide +kernel
  refine ((recvFrameAs_serial_returns_first_iff (arrives_delivering _) ?_).2
    (fun _ _ _ => Int.le_refl _) (fun _ _ => ?_) ?_).mpr (.inr ⟨_, _, _, hframes, ?_, ?_⟩)
  · rw [show framesAhead (Link.parser {}) _ = _ from hframes]
    decide
  · simp only [TwoRemain, delivering]
    decide
  · simp only [DeadlinesFit, delivering]
    decide
  · simp only [List.mem_singleton, forall_eq]
    exact ⟨by decide +kernel, .inl (by decide)⟩
  · exact ⟨validFrame_encode (k := .cmd) {}, by decide +kernel⟩

/-- A frame of the wanted type with a payload of one byte before the command ends the
call with nothing, while the whole second is left. -/
theorem short_command_ends_receive :
    Arrives (delivering [encodeFrame [0] kTypeCmd ++ encodeCmd {}]) {}
        [encodeFrame [0] kTypeCmd ++ encodeCmd {}] ∧
      (∀ i, TwoRemain 0 1000
        ((delivering [encodeFrame [0] kTypeCmd ++ encodeCmd {}]).now i)) ∧
      framesAhead {} [encodeFrame [0] kTypeCmd ++ encodeCmd {}] =
        [encodeFrame [0] kTypeCmd, encodeCmd {}] ∧
      decodeCmd (encodeCmd {}) = some {} ∧
      (recvFrameAs (delivering [encodeFrame [0] kTypeCmd ++ encodeCmd {}]) 4 .serial .cmd
        1000 {}).1 = .returned none := by
  refine ⟨arrives_delivering _, fun _ => ?_, ?_, ?_, ?_⟩
  · simp only [TwoRemain, delivering]
    decide
  · decide +kernel
  · decide +kernel
  · decide +kernel

end RovSdk.TypedStreamReceive
