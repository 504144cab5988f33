import RovSdk.ProtocolBytes

namespace RovSdk.StreamParser

open RovSdk.ListSlices
open RovSdk.ProtocolBytes

structure FrameParser where
  buf : List UInt8 := []
  deriving DecidableEq, Repr

def FrameParser.feed (p : FrameParser) (bytes : List UInt8) : FrameParser :=
  { p with buf := p.buf ++ bytes }

def FrameParser.reset (p : FrameParser) : FrameParser :=
  { p with buf := [] }

/-- The inner loop of `next_frame`: how far `pos` advances before it stands on an
STX pair or on the last byte. -/
def findStx : List UInt8 → Nat
  | [] => 0
  | [_] => 0
  | a :: b :: rest =>
      if a = kStx0 ∧ b = kStx1 then 0 else findStx (b :: rest) + 1

/-- How one turn of the loop ends: `continue` with a shorter buffer, or `return`. -/
inductive Turn where
  | again (buf : List UInt8)
  | done (frame : Option (List UInt8)) (buf : List UInt8)
  deriving DecidableEq, Repr

def turn (buf : List UInt8) : Turn :=
  let pos := findStx buf
  if pos + 1 ≥ buf.length then
    -- no complete STX: a trailing first half is kept
    if getU8 buf (buf.length - 1) = kStx0 then .done none (buf.drop pos)
    else .done none []
  else if buf.length - pos < kFrameOverhead then .done none (buf.drop pos)
  else
    let ver := getU8 buf (pos + 2)
    let len := getU8 buf (pos + 3)
    let total := kFrameOverhead + len.toNat
    if ver ≠ kProtocolVersion then .again (buf.drop (pos + 1))
    else if buf.length - pos < total then .done none (buf.drop pos)
    else
      let crc := crc16 (slice buf (pos + 2) (3 + len.toNat))
      let got := getU16LE buf (pos + total - 2)
      if crc ≠ got then .again (buf.drop (pos + 1))
      else .done (some (slice buf pos total)) (buf.drop (pos + total))

/-- The `while` loop of `next_frame`, for at most `fuel` turns. -/
def nextFrameLoop : Nat → List UInt8 → Option (List UInt8) × List UInt8
  | 0, buf => (none, buf)
  | fuel + 1, buf =>
      if buf.length ≥ kFrameOverhead then
        match turn buf with
        | .again buf' => nextFrameLoop fuel buf'
        | .done frame buf' => (frame, buf')
      else (none, buf)

/-- Every turn that continues shortens the buffer, so the loop never needs more
turns than the buffer has bytes; see `nextFrame_buf_eq`. -/
def FrameParser.nextFrame (p : FrameParser) : Option (List UInt8) × FrameParser :=
  let r := nextFrameLoop (p.buf.length + 1) p.buf
  (r.1, { p with buf := r.2 })

theorem findStx_lt (buf : List UInt8) (hne : buf ≠ []) : findStx buf < buf.length := by
  fun_induction findStx buf with
  | case1 => exact absurd rfl hne
  | case2 => simp
  | case3 a b rest hstx => simp
  | case4 a b rest hstx ih =>
      have hlt := ih (by simp)
      simp only [List.length_cons] at hlt ⊢
      omega

theorem not_stx_of_lt_findStx {buf : List UInt8} {k : Nat} (hk : k < findStx buf) :
    ¬(getU8 buf k = kStx0 ∧ getU8 buf (k + 1) = kStx1) := by
  fun_induction findStx buf generalizing k with
  | case1 => omega
  | case2 => omega
  | case3 => omega
  | case4 a b rest hstx ih =>
      cases k with
      | zero => exact hstx
      | succ k => exact ih (by omega)

theorem stx_of_findStx (buf : List UInt8) (h : findStx buf + 1 < buf.length) :
    getU8 buf (findStx buf) = kStx0 ∧ getU8 buf (findStx buf + 1) = kStx1 := by
  fun_induction findStx buf with
  | case1 => simp at h
  | case2 => simp at h
  | case3 a b rest hstx => exact hstx
  | case4 a b rest hstx ih =>
      simp only [List.length_cons] at h ih
      exact ih (by omega)

theorem length_lt_of_turn_again {buf buf' : List UInt8} (h : turn buf = .again buf') :
    buf'.length < buf.length := by
  simp only [turn] at h
  split_ifs at h with hlast hback hshort hver htotal hcrc <;> simp only [Turn.again.injEq] at h
  all_goals
    subst h
    rw [List.length_drop]
    omega

theorem nextFrameLoop_fuel {fuel fuel' : Nat} {buf : List UInt8}
    (h : buf.length < fuel) (h' : buf.length < fuel') :
    nextFrameLoop fuel buf = nextFrameLoop fuel' buf := by
  induction fuel generalizing fuel' buf with
  | zero => omega
  | succ fuel ih =>
      obtain ⟨fuel', rfl⟩ : ∃ k, fuel' = k + 1 := ⟨fuel' - 1, by omega⟩
      simp only [nextFrameLoop]
      split
      · cases hturn : turn buf with
        | done frame buf' => rfl
        | again buf' =>
            have hlt := length_lt_of_turn_again hturn
            exact ih (by omega) (by omega)
      · rfl

/-- The loop as the source writes it: test the size, take a turn, go round again. -/
theorem nextFrame_buf_eq (buf : List UInt8) :
    FrameParser.nextFrame ⟨buf⟩ =
      if buf.length ≥ kFrameOverhead then
        match turn buf with
        | .again buf' => FrameParser.nextFrame ⟨buf'⟩
        | .done frame buf' => (frame, ⟨buf'⟩)
      else (none, ⟨buf⟩) := by
  simp only [FrameParser.nextFrame]
  rw [nextFrameLoop]
  split
  · cases hturn : turn buf with
    | done frame buf' => rfl
    | again buf' =>
        have hlt := length_lt_of_turn_again hturn
        simp only [nextFrameLoop_fuel hlt (Nat.lt_succ_self buf'.length)]
  · rfl

/-- The rule for a property of a whole call: it holds where the loop is not entered,
where a turn returns, and it passes back over a turn that goes round again. -/
theorem nextFrame_rule {Q : List UInt8 → Option (List UInt8) → List UInt8 → Prop}
    (hshort : ∀ buf, buf.length < kFrameOverhead → Q buf none buf)
    (hdone : ∀ buf frame buf', kFrameOverhead ≤ buf.length →
      turn buf = .done frame buf' → Q buf frame buf')
    (hagain : ∀ buf buf' frame buf'', kFrameOverhead ≤ buf.length →
      turn buf = .again buf' → Q buf' frame buf'' → Q buf frame buf'')
    (p : FrameParser) : Q p.buf p.nextFrame.1 p.nextFrame.2.buf := by
  obtain ⟨buf⟩ := p
  induction hlen : buf.length using Nat.strongRecOn generalizing buf with
  | _ len ih =>
      rw [nextFrame_buf_eq]
      split
      next hge =>
        cases hturn : turn buf with
        | done frame buf' => exact hdone buf frame buf' hge hturn
        | again buf' =>
            have hlt := length_lt_of_turn_again hturn
            exact hagain buf buf' _ _ hge hturn (ih buf'.length (by omega) buf' rfl)
      next hlt => exact hshort buf (by omega)

/-- Calling `next_frame` until it returns `nullopt`: the frames it returned and the
parser it leaves. -/
inductive Drains : FrameParser → List (List UInt8) → FrameParser → Prop
  | stop {p p' : FrameParser} : p.nextFrame = (none, p') → Drains p [] p'
  | more {p p' p'' : FrameParser} {frame : List UInt8} {frames : List (List UInt8)} :
      p.nextFrame = (some frame, p') → Drains p' frames p'' →
      Drains p (frame :: frames) p''

def drainLoop : Nat → FrameParser → List (List UInt8) × FrameParser
  | 0, p => ([], p)
  | fuel + 1, p =>
      match p.nextFrame with
      | (none, p') => ([], p')
      | (some frame, p') =>
          let r := drainLoop fuel p'
          (frame :: r.1, r.2)

def FrameParser.drain (p : FrameParser) : List (List UInt8) × FrameParser :=
  drainLoop (p.buf.length + 1) p

end RovSdk.StreamParser
