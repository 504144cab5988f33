import RovSdk.FrameRecognizer

/-!
Whole runs of a `FrameParser`.  A session records, beside the parser, the bytes
fed and the frames returned since the last reset; `Session.Consistent` says that
the frames returned are a partial greedy scan of the bytes fed that stopped where
the parser's buffer begins.
-/

namespace RovSdk.ParserSessions

open RovSdk.GreedyScan
open RovSdk.ProtocolBytes
open RovSdk.FrameFormat
open RovSdk.FrameRecognizer
open RovSdk.StreamParser

variable {p p' : FrameParser} {frame : List UInt8}

theorem advance_of_nextFrame_some (c : Nat) (h : p.nextFrame = (some frame, p')) :
    ∃ i, Advance frames c p.buf [(i, frame)] (i + frame.length) p'.buf := by
  have hspec := nextFrame_spec c p
  rwa [h] at hspec

theorem advance_of_nextFrame_none (c : Nat) (h : p.nextFrame = (none, p')) :
    (∃ c', Advance frames c p.buf [] c' p'.buf) ∧
      (p'.buf.length < kFrameOverhead ∨ frameVerdict p'.buf = .wait) := by
  have hspec := nextFrame_spec c p
  rwa [h] at hspec

theorem scan_eq_nil_of_nextFrame_none (c : Nat) (h : p.nextFrame = (none, p')) :
    scan frames c p'.buf = [] := by
  obtain ⟨-, hshort | hwait⟩ := advance_of_nextFrame_none c h
  · obtain ⟨c', s', hadv, hw⟩ := exists_advance_wait_of_short hshort c
    exact hadv.scan_eq_nil_of_wait hw
  · exact scan_of_wait hwait c

theorem validFrame_of_nextFrame_some (h : p.nextFrame = (some frame, p')) :
    ValidFrame frame := by
  obtain ⟨i, hadv⟩ := advance_of_nextFrame_some 0 h
  obtain ⟨u, hv, htake⟩ := hadv.mem_accept (List.mem_singleton.mpr rfl)
  obtain ⟨n, hn, hholds⟩ := frameVerdict_accept_iff.mp hv
  rw [← htake, hn]
  exact hholds.validFrame_take

theorem length_lt_of_nextFrame_some (h : p.nextFrame = (some frame, p')) :
    p'.buf.length < p.buf.length := by
  obtain ⟨payload, type, -, hframe⟩ := validFrame_of_nextFrame_some h
  obtain ⟨i, hadv⟩ := advance_of_nextFrame_some 0 h
  have hoffset := hadv.offset_add_length
  have hpos : 0 < frame.length := by
    rw [hframe, length_encodeFrame, kFrameOverhead_eq]
    omega
  omega

/-- Draining ends: each frame returned shortens the buffer. -/
theorem drains_drainLoop {fuel : Nat} {p : FrameParser} (h : p.buf.length < fuel) :
    Drains p (drainLoop fuel p).1 (drainLoop fuel p).2 := by
  induction fuel generalizing p with
  | zero => omega
  | succ fuel ih =>
      simp only [drainLoop]
      rcases hnext : p.nextFrame with ⟨_ | frame, p'⟩
      · exact .stop hnext
      · have hlt := length_lt_of_nextFrame_some hnext
        exact .more hnext (ih (by omega))

theorem drains_drain (p : FrameParser) : Drains p p.drain.1 p.drain.2 :=
  drains_drainLoop (Nat.lt_succ_self _)

/-- A drain returns every frame of the buffer and leaves none behind. -/
theorem scan_eq_of_drains {frames' : List (List UInt8)} (h : Drains p frames' p') (c : Nat) :
    ∃ out c', Advance frames c p.buf out c' p'.buf ∧ out.map Prod.snd = frames' ∧
      scan frames c p.buf = out := by
  induction h generalizing c with
  | stop hnext =>
      obtain ⟨⟨c', hadv⟩, -⟩ := advance_of_nextFrame_none c hnext
      refine ⟨[], c', hadv, rfl, ?_⟩
      rw [hadv.scan_eq, scan_eq_nil_of_nextFrame_none c' hnext, List.nil_append]
  | @more _ _ _ frame _ hnext _ ih =>
      obtain ⟨i, hadv⟩ := advance_of_nextFrame_some c hnext
      obtain ⟨out, c', hrest, hmap, hscan⟩ := ih (i + frame.length)
      refine ⟨_, c', hadv.trans hrest, by simp [hmap], ?_⟩
      rw [hadv.scan_eq, hscan]

theorem drain_eq_scan (p : FrameParser) (c : Nat) :
    p.drain.1 = (scan frames c p.buf).map Prod.snd := by
  obtain ⟨out, -, -, hmap, hscan⟩ := scan_eq_of_drains (drains_drain p) c
  rw [hscan, hmap]

/-- What has been extracted comes first, whatever is fed later. -/
theorem drain_feed_of_advance {c c' : Nat} {out : List (Nat × List UInt8)}
    (h : Advance frames c p.buf out c' p'.buf) (t : List UInt8) :
    (p.feed t).drain.1 = out.map Prod.snd ++ (p'.feed t).drain.1 := by
  rw [drain_eq_scan _ c, drain_eq_scan _ c', ← List.map_append]
  exact congrArg _ (h.append t).scan_eq

theorem drain_feed_of_some (h : p.nextFrame = (some frame, p')) (t : List UInt8) :
    (p.feed t).drain.1 = frame :: (p'.feed t).drain.1 := by
  obtain ⟨i, hadv⟩ := advance_of_nextFrame_some 0 h
  exact drain_feed_of_advance hadv t

theorem drain_feed_of_none (h : p.nextFrame = (none, p')) (t : List UInt8) :
    (p.feed t).drain.1 = (p'.feed t).drain.1 := by
  obtain ⟨⟨c', hadv⟩, -⟩ := advance_of_nextFrame_none 0 h
  exact drain_feed_of_advance hadv t

theorem feed_nil (p : FrameParser) : p.feed [] = p := by
  rw [FrameParser.feed, List.append_nil]

theorem drain_of_some (h : p.nextFrame = (some frame, p')) :
    p.drain.1 = frame :: p'.drain.1 := by
  simpa only [feed_nil] using drain_feed_of_some h []

theorem drain_of_none (h : p.nextFrame = (none, p')) : p.drain.1 = [] := by
  obtain ⟨⟨c', hadv⟩, -⟩ := advance_of_nextFrame_none 0 h
  rw [drain_eq_scan p 0, hadv.scan_eq, scan_eq_nil_of_nextFrame_none c' h]
  rfl

inductive Call where
  | feed (chunk : List UInt8)
  | nextFrame
  | reset
  deriving DecidableEq, Repr

/-- A parser with what happened since the last reset: the bytes fed, and the frames
returned, each with its offset in those bytes. -/
structure Session where
  parser : FrameParser := {}
  fed : List UInt8 := []
  returned : List (Nat × List UInt8) := []
  deriving DecidableEq, Repr

/-- The parser's buffer is the end of the bytes fed, so a frame just returned ends
where the buffer begins. -/
def Session.step (s : Session) : Call → Session
  | .feed chunk => { s with parser := s.parser.feed chunk, fed := s.fed ++ chunk }
  | .nextFrame =>
      match s.parser.nextFrame with
      | (none, p) => { s with parser := p }
      | (some frame, p) =>
          { s with
            parser := p
            returned := s.returned ++
              [(s.fed.length - p.buf.length - frame.length, frame)] }
  | .reset => { parser := s.parser.reset }

def session (calls : List Call) : Session := calls.foldl Session.step {}

def Session.Consistent (s : Session) : Prop :=
  Advance frames 0 s.fed s.returned (s.fed.length - s.parser.buf.length) s.parser.buf

theorem Session.Consistent.length_le {s : Session} (h : s.Consistent) :
    s.parser.buf.length ≤ s.fed.length :=
  h.suffix.length_le

theorem Session.Consistent.step {s : Session} (h : s.Consistent) (call : Call) :
    (s.step call).Consistent := by
  have hle := h.length_le
  cases call with
  | feed chunk =>
      have hmore := h.append chunk
      simp only [Session.Consistent, Session.step, FrameParser.feed, List.length_append]
      rwa [Nat.add_sub_add_right]
  | nextFrame =>
      simp only [Session.step]
      rcases hnext : s.parser.nextFrame with ⟨_ | frame, p⟩
      · obtain ⟨⟨c', hadv⟩, -⟩ :=
          advance_of_nextFrame_none (s.fed.length - s.parser.buf.length) hnext
        have hoffset := hadv.offset_add_length
        have hstep := h.trans hadv
        rw [List.append_nil, show c' = s.fed.length - p.buf.length by omega] at hstep
        exact hstep
      · obtain ⟨i, hadv⟩ :=
          advance_of_nextFrame_some (s.fed.length - s.parser.buf.length) hnext
        have hoffset := hadv.offset_add_length
        have hstep := h.trans hadv
        rw [show i + frame.length = s.fed.length - p.buf.length by omega,
          show i = s.fed.length - p.buf.length - frame.length by omega] at hstep
        exact hstep
  | reset => exact .refl _ _

theorem consistent_foldl {s : Session} (h : s.Consistent) (calls : List Call) :
    (calls.foldl Session.step s).Consistent := by
  induction calls generalizing s with
  | nil => exact h
  | cons call calls ih => exact ih (h.step call)

theorem session_consistent (calls : List Call) : (session calls).Consistent :=
  consistent_foldl (s := {}) (.refl _ _) calls

/-- What has been returned and what a drain now returns make up the whole scan. -/
theorem Session.Consistent.returned_append_drain {s : Session} (h : s.Consistent) :
    ∃ out, s.returned ++ out = scan frames 0 s.fed ∧
      out.map Prod.snd = s.parser.drain.1 := by
  obtain ⟨out, c', hadv, hmap, hscan⟩ :=
    scan_eq_of_drains (drains_drain s.parser) (s.fed.length - s.parser.buf.length)
  exact ⟨out, by rw [h.scan_eq, hscan], hmap⟩

theorem Session.Consistent.returned_prefix {s : Session} (h : s.Consistent) :
    s.returned <+: scan frames 0 s.fed := by
  obtain ⟨out, hout, -⟩ := h.returned_append_drain
  exact ⟨out, hout⟩

theorem fed_step_nextFrame (s : Session) : (s.step .nextFrame).fed = s.fed := by
  simp only [Session.step]
  split <;> rfl

theorem returned_step_nextFrame (s : Session) :
    s.returned <+: (s.step .nextFrame).returned := by
  simp only [Session.step]
  split
  · exact List.prefix_rfl
  · exact List.prefix_append _ _

theorem Session.Consistent.polls_of_returned {s : Session} (h : s.Consistent)
    (hall : s.returned = scan frames 0 s.fed) (m : Nat) :
    ((List.replicate m Call.nextFrame).foldl Session.step s).returned =
      scan frames 0 s.fed := by
  induction m generalizing s with
  | zero => exact hall
  | succ m ih =>
      have hstep := h.step .nextFrame
      have hfed := fed_step_nextFrame s
      have hprefix := hstep.returned_prefix
      rw [hfed] at hprefix
      have hmore := hall ▸ returned_step_nextFrame s
      rw [List.replicate_succ, List.foldl_cons, ih hstep, hfed]
      rw [hfed]
      exact hprefix.eq_of_length_le hmore.length_le

/-- More polls than the buffer has bytes return every frame of the bytes fed. -/
theorem Session.Consistent.returned_polls {s : Session} (h : s.Consistent) {m : Nat}
    (hm : s.parser.buf.length < m) :
    ((List.replicate m Call.nextFrame).foldl Session.step s).returned =
      scan frames 0 s.fed := by
  induction m generalizing s with
  | zero => omega
  | succ m ih =>
      have hstep := h.step .nextFrame
      have hfed := fed_step_nextFrame s
      rw [List.replicate_succ, List.foldl_cons]
      rcases hnext : s.parser.nextFrame with ⟨_ | frame, p⟩
      · have hafter : s.step .nextFrame = { s with parser := p } := by
          simp only [Session.step, hnext]
        have hreturned : (s.step .nextFrame).returned = scan frames 0 s.fed := by
          have hscan := hstep.scan_eq
          rw [hafter] at hscan ⊢
          rw [hscan, scan_eq_nil_of_nextFrame_none _ hnext, List.append_nil]
        rw [← hfed] at hreturned
        rw [hstep.polls_of_returned hreturned, hfed]
      · have hafter : (s.step .nextFrame).parser = p := by
          simp only [Session.step, hnext]
        have hlt := length_lt_of_nextFrame_some hnext
        rw [ih hstep (by rw [hafter]; omega), hfed]

def polled (calls : List Call) : List Call :=
  calls ++ List.replicate ((session calls).parser.buf.length + 1) .nextFrame

theorem returned_polled (calls : List Call) :
    (session (polled calls)).returned = scan frames 0 (session calls).fed := by
  rw [session, polled, List.foldl_append]
  exact (session_consistent calls).returned_polls (Nat.lt_succ_self _)

end RovSdk.ParserSessions
