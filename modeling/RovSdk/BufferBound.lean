import RovSdk.FrameLink
import RovSdk.ParserSessions
import RovSdk.SerialChannel

namespace RovSdk.BufferBound

open RovSdk.ListSlices
open RovSdk.GreedyScan
open RovSdk.ProtocolBytes
open RovSdk.FrameRecognizer
open RovSdk.StreamParser
open RovSdk.ParserSessions
open RovSdk.Packets
open RovSdk.FrameLink

/-- Less than an empty frame, or the start of a frame that is not complete. -/
def Canonical (buf : List UInt8) : Prop :=
  buf.length < kFrameOverhead ∨
    (getU8 buf 0 = kStx0 ∧ getU8 buf 1 = kStx1 ∧ getU8 buf 2 = kProtocolVersion) ∧
      buf.length < kFrameOverhead + (getU8 buf 3).toNat

theorem Canonical.length_le {buf : List UInt8} (h : Canonical buf) : buf.length ≤ 261 := by
  have hk := kFrameOverhead_eq
  have hbyte := (getU8 buf 3).toNat_lt
  rcases h with hshort | ⟨-, hincomplete⟩ <;> omega

theorem canonical_of_frameVerdict_wait {buf : List UInt8} (h : frameVerdict buf = .wait) :
    Canonical buf := by
  have hk := kFrameOverhead_eq
  by_cases hshort : buf.length < kFrameOverhead
  · exact .inl hshort
  · simp only [frameVerdict] at h
    rw [if_neg (by omega)] at h
    split_ifs at h with h0 h1 h2 h3 h4 h5 h6
    · omega
    · omega
    · rw [not_not] at h0 h2 h4
      exact .inr ⟨⟨h0, h2, h4⟩, h5⟩

theorem canonical_of_nextFrame_none {p p' : FrameParser} (h : p.nextFrame = (none, p')) :
    Canonical p'.buf := by
  obtain ⟨-, hshort | hwait⟩ := advance_of_nextFrame_none 0 h
  · exact .inl hshort
  · exact canonical_of_frameVerdict_wait hwait

theorem findStx_eq_zero {buf : List UInt8}
    (hstx : getU8 buf 0 = kStx0 ∧ getU8 buf 1 = kStx1) : findStx buf = 0 := by
  by_contra hpos
  exact not_stx_of_lt_findStx (Nat.pos_of_ne_zero hpos) hstx

theorem nextFrame_of_canonical {p : FrameParser} (h : Canonical p.buf) :
    p.nextFrame = (none, p) := by
  have hk := kFrameOverhead_eq
  obtain ⟨buf⟩ := p
  rw [nextFrame_buf_eq]
  by_cases hshort : buf.length < kFrameOverhead
  · rw [if_neg (by omega)]
  obtain ⟨⟨h0, h1, h2⟩, hincomplete⟩ := h.resolve_left hshort
  have hturn : turn buf = .done none buf := by
    simp only [turn, findStx_eq_zero ⟨h0, h1⟩, Nat.zero_add, Nat.sub_zero,
      List.drop_zero]
    rw [if_neg (by omega), if_neg hshort, if_neg (not_not_intro h2), if_pos hincomplete]
  rw [if_pos (by omega), hturn]

section Link

variable {env : Env} {M : Nat} {l : Link}

def ReadsAtMost (env : Env) (M : Nat) : Prop :=
  ∀ i bytes, env.recvBytes i = some bytes → bytes.length ≤ M

def Bounded (M : Nat) (l : Link) : Prop := l.parser.buf.length ≤ 261 + M

/-- The links that a call passes through, up to the one it leaves: a loop is cut after
any number of turns, and so is a `recv_frame` called from within `recv_frame_as`. -/
inductive Passes (env : Env) : RecvCall → Link → Link → Prop
  | recvFrame (timeout : Int64) (l : Link) (turns : Nat) :
      Passes env (.recvFrame timeout) l (recvFrame env turns timeout l).2
  | recvFrameAs (k : PacketType) (timeout : Int64) (l : Link) (inner turns : Nat) :
      Passes env (.recvFrameAs k timeout) l
        (recvFrameAsLoop (recvFrame env inner) env k
          (deadlineAfter (env.now l.ticks) timeout) turns l.tick).2
  | within (k : PacketType) (timeout : Int64) {l l' : Link} (inner turns : Nat)
      (h : recvFrameAsLoop (recvFrame env inner) env k
        (deadlineAfter (env.now l.ticks) timeout) turns l.tick = (.running, l'))
      (remaining : Int64) (cut : Nat) :
      Passes env (.recvFrameAs k timeout) l (recvFrame env cut remaining l'.tick).2

/-- Bytes are fed only on top of a canonical buffer. -/
theorem bounded_recvFrameLoop (hread : ReadsAtMost env M) (h : Bounded M l)
    (deadline : Int64) (fuel : Nat) : Bounded M (recvFrameLoop env deadline fuel l).2 := by
  induction fuel generalizing l with
  | zero => exact h
  | succ fuel ih =>
      rw [recvFrameLoop]
      rcases hnext : l.parser.nextFrame with ⟨_ | frame, p⟩
      · have hp := (canonical_of_nextFrame_none hnext).length_le
        have hkept : p.buf.length ≤ 261 + M := by omega
        simp only
        split_ifs
        · exact hkept
        · exact hkept
        · split
          next => exact hkept
          next bytes hbytes =>
            apply ih
            have hM := hread _ _ hbytes
            simp only [Bounded, Link.feed, Link.ask, Link.tick, FrameParser.feed,
              List.length_append]
            omega
      · have hlt := length_lt_of_nextFrame_some hnext
        exact hlt.le.trans h

theorem bounded_recvFrame (hread : ReadsAtMost env M) (h : Bounded M l) (fuel : Nat)
    (timeout : Int64) : Bounded M (recvFrame env fuel timeout l).2 := by
  rw [recvFrame]
  split_ifs
  · exact h
  · exact bounded_recvFrameLoop hread (l := l.tick) h _ _

theorem bounded_recvFrameAsLoop (hread : ReadsAtMost env M) (h : Bounded M l)
    (inner : Nat) (k : PacketType) (deadline : Int64) (fuel : Nat) :
    Bounded M (recvFrameAsLoop (recvFrame env inner) env k deadline fuel l).2 := by
  induction fuel generalizing l with
  | zero => exact h
  | succ fuel ih =>
      rw [recvFrameAsLoop]
      simp only
      split_ifs
      · exact h
      · exact h
      · have hrecv := bounded_recvFrame hread (l := l.tick) h inner
          (remainingMillis deadline (env.now l.ticks))
        generalize recvFrame env inner (remainingMillis deadline (env.now l.ticks)) l.tick =
          r at hrecv ⊢
        rcases r with ⟨_ | _ | frame, l'⟩
        · exact hrecv
        · exact hrecv
        · simp only
          split_ifs
          · exact hrecv
          · exact ih hrecv

theorem Passes.bounded {call : RecvCall} {l' : Link} (hpass : Passes env call l l')
    (hread : ReadsAtMost env M) (h : Bounded M l) : Bounded M l' := by
  cases hpass with
  | recvFrame timeout _ turns => exact bounded_recvFrame hread h turns timeout
  | recvFrameAs k timeout _ inner turns =>
      exact bounded_recvFrameAsLoop hread (l := l.tick) h inner k _ turns
  | @within k timeout _ l' inner turns hrun remaining cut =>
      have hl' := bounded_recvFrameAsLoop hread (l := l.tick) h inner k
        (deadlineAfter (env.now l.ticks) timeout) turns
      rw [hrun] at hl'
      exact bounded_recvFrame hread (l := l'.tick) hl' cut remaining

theorem passes_call (env : Env) (l : Link) (fuel : Nat) (call : RecvCall) :
    Passes env call l (l.call env .serial fuel call).2 ∨
      (l.call env .serial fuel call).2 = l := by
  cases call with
  | recvFrame timeout => exact .inl (.recvFrame timeout l fuel)
  | recvFrameAs k timeout =>
      simp only [Link.call, FrameLink.recvFrameAs]
      split_ifs
      · exact .inr rfl
      · exact .inl (.recvFrameAs k timeout l fuel fuel)

theorem bounded_run (hread : ReadsAtMost env M) (h : Bounded M l)
    (calls : List (Nat × RecvCall)) : Bounded M (run env .serial l calls).2 := by
  induction calls generalizing l with
  | nil => exact h
  | cons entry calls ih =>
      obtain ⟨fuel, call⟩ := entry
      have hcall : Bounded M (l.call env .serial fuel call).2 := by
        rcases passes_call env l fuel call with hpass | hsame
        · exact hpass.bounded hread h
        · rwa [hsame]
      simp only [run]
      split_ifs
      · exact hcall
      · exact ih hcall

end Link

/-- Whatever was fed and polled before, a poll that returns nothing leaves a canonical
buffer, which polling again does not change, and the buffer is always the end of the
bytes fed.  So no link whose channel returns at most `M` bytes for each call ever
holds more than `261 + M` bytes; a serial channel returns at most 4096. -/
theorem buffer_bounded {M : Nat} {env : Env} (hread : ReadsAtMost env M) :
    (∀ calls p', (session calls).parser.nextFrame = (none, p') →
        Canonical p'.buf ∧ p'.buf.length ≤ 261 ∧ p'.nextFrame = (none, p')) ∧
      (∀ calls, (session calls).parser.buf <:+ (session calls).fed) ∧
      (∀ calls call l', Passes env call (run env .serial {} calls).2 l' →
        l'.parser.buf.length ≤ 261 + M) ∧
      ∀ (impl : SerialChannel.Impl) (now : Nat → Int64) (timeouts : Nat → Int64)
        (outcomes : Nat → SerialChannel.RecvOutcome),
        ReadsAtMost ⟨now, fun i => impl.recvBytes (timeouts i) (outcomes i)⟩ 4096 := by
  refine ⟨fun calls p' hnext => ?_, fun calls => (session_consistent calls).suffix,
    fun calls call l' hpass => ?_, fun _ _ _ _ _ _ h => SerialChannel.length_recvBytes h⟩
  · have hcanonical := canonical_of_nextFrame_none hnext
    exact ⟨hcanonical, hcanonical.length_le, nextFrame_of_canonical hcanonical⟩
  · exact hpass.bounded hread (bounded_run hread (l := {}) (Nat.zero_le _) calls)

def noisyEnv : Env where
  now _ := 0
  recvBytes _ := some [0x55]

theorem noise_bounded :
    ReadsAtMost noisyEnv 1 ∧ (recvFrame noisyEnv 3 5 {}).2.timeouts.length = 3 ∧
      (recvFrame noisyEnv 3 5 {}).2.parser.buf.length ≤ 261 + 1 := by
  have hread : ReadsAtMost noisyEnv 1 := by
    intro i bytes hbytes
    rw [← Option.some.inj hbytes]
    exact Nat.le_refl 1
  exact ⟨hread, by decide +kernel,
    (buffer_bounded hread).2.2.1 [] (.recvFrame 5) _ (.recvFrame 5 {} 3)⟩

end RovSdk.BufferBound
