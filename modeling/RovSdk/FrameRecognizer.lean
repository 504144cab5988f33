import RovSdk.FrameFormat
import RovSdk.GreedyScan
import RovSdk.StreamParser

/-!
`FrameParser` as a greedy scan.  `frameVerdict` says what the bytes at the head
of a stream amount to; each exit of `next_frame` is then a partial scan of the
buffer, so the parser's buffer always stands for a point of the whole stream.
-/

namespace RovSdk.FrameRecognizer

open RovSdk.ListSlices
open RovSdk.GreedyScan
open RovSdk.ProtocolBytes
open RovSdk.FrameFormat
open RovSdk.StreamParser

/-- The judgement on a frame that starts with the first byte of `s`, made as soon
as the bytes at hand allow it. -/
def frameVerdict (s : List UInt8) : Verdict :=
  if s.length < 1 then .wait
  else if getU8 s 0 ≠ kStx0 then .reject
  else if s.length < 2 then .wait
  else if getU8 s 1 ≠ kStx1 then .reject
  else if s.length < 3 then .wait
  else if getU8 s 2 ≠ kProtocolVersion then .reject
  else if s.length < kFrameOverhead then .wait
  else
    let n := (getU8 s 3).toNat
    if s.length < kFrameOverhead + n then .wait
    else if crc16 (slice s 2 (3 + n)) ≠ getU16LE s (5 + n) then .reject
    else .accept (kFrameOverhead + n)

theorem frameVerdict_accept_iff {s : List UInt8} {k : Nat} :
    frameVerdict s = .accept k ↔ ∃ n, k = kFrameOverhead + n ∧ HoldsFrame s n := by
  constructor
  · intro h
    simp only [frameVerdict] at h
    split_ifs at h with h1 h2 h3 h4 h5 h6 h7 h8 h9
    simp only [not_not] at h2 h4 h6 h9
    exact ⟨_, by simpa using h.symm, by omega, h2, h4, h6, rfl, h9⟩
  · rintro ⟨n, rfl, hfits, h0, h1, h2, rfl, hcrc⟩
    simp only [kFrameOverhead] at hfits
    simp only [frameVerdict, kFrameOverhead, h0, h1, h2, hcrc]
    rw [if_neg (by omega), if_neg (by simp), if_neg (by omega), if_neg (by simp),
      if_neg (by omega), if_neg (by simp), if_neg (by omega), if_neg (by omega),
      if_neg (by simp)]

theorem frameVerdict_reject_append {s : List UInt8} (h : frameVerdict s = .reject)
    (t : List UInt8) : frameVerdict (s ++ t) = .reject := by
  simp only [frameVerdict] at h
  -- one bullet for each check that can fail: STX0, STX1, version, CRC
  split_ifs at h with h1 h2 h3 h4 h5 h6 h7 h8 h9
  · simp only [frameVerdict, getU8_append (by omega : 0 < s.length), List.length_append]
    rw [if_neg (by omega), if_pos h2]
  · simp only [frameVerdict, getU8_append (by omega : 0 < s.length),
      getU8_append (by omega : 1 < s.length), List.length_append]
    rw [if_neg (by omega), if_neg h2, if_neg (by omega), if_pos h4]
  · simp only [frameVerdict, getU8_append (by omega : 0 < s.length),
      getU8_append (by omega : 1 < s.length), getU8_append (by omega : 2 < s.length),
      List.length_append]
    rw [if_neg (by omega), if_neg h2, if_neg (by omega), if_neg h4, if_neg (by omega),
      if_pos h6]
  · simp only [kFrameOverhead] at h7 h8
    simp only [frameVerdict, getU8_append (by omega : 0 < s.length),
      getU8_append (by omega : 1 < s.length), getU8_append (by omega : 2 < s.length),
      getU8_append (by omega : 3 < s.length), List.length_append, kFrameOverhead]
    rw [slice_append_left (by omega), getU16LE_append (by omega), if_neg (by omega),
      if_neg h2, if_neg (by omega), if_neg h4, if_neg (by omega), if_neg h6,
      if_neg (by omega), if_neg (by omega), if_pos h9]

theorem frameVerdict_accept_append {s : List UInt8} {k : Nat}
    (h : frameVerdict s = .accept k) (t : List UInt8) : frameVerdict (s ++ t) = .accept k := by
  obtain ⟨n, hk, hholds⟩ := frameVerdict_accept_iff.mp h
  exact frameVerdict_accept_iff.mpr ⟨n, hk, hholds.append t⟩

theorem pos_of_frameVerdict_accept {s : List UInt8} {k : Nat}
    (h : frameVerdict s = .accept k) : 0 < k := by
  obtain ⟨n, rfl, -⟩ := frameVerdict_accept_iff.mp h
  rw [kFrameOverhead_eq]
  omega

theorem le_length_of_frameVerdict_accept {s : List UInt8} {k : Nat}
    (h : frameVerdict s = .accept k) : k ≤ s.length := by
  obtain ⟨n, rfl, hholds⟩ := frameVerdict_accept_iff.mp h
  exact hholds.fits

def frames : Recognizer UInt8 where
  verdict := frameVerdict
  verdict_nil := rfl
  reject_append := frameVerdict_reject_append
  accept_append := frameVerdict_accept_append
  accept_pos := pos_of_frameVerdict_accept
  accept_le := le_length_of_frameVerdict_accept

theorem frameVerdict_encodeFrame_append {payload : List UInt8}
    (hlen : payload.length ≤ 255) (type : UInt8) (t : List UInt8) :
    frameVerdict (encodeFrame payload type ++ t) =
      .accept (encodeFrame payload type).length := by
  rw [length_encodeFrame]
  exact frameVerdict_accept_iff.mpr
    ⟨_, rfl, holdsFrame_encodeFrame_append hlen type t⟩

theorem frameVerdict_reject_of_not_stx {s : List UInt8} (hlen : 2 ≤ s.length)
    (hstx : ¬(getU8 s 0 = kStx0 ∧ getU8 s 1 = kStx1)) : frameVerdict s = .reject := by
  simp only [frameVerdict]
  rw [if_neg (by omega)]
  by_cases h0 : getU8 s 0 = kStx0
  · rw [if_neg (by simp [h0]), if_neg (by omega), if_pos (fun h1 => hstx ⟨h0, h1⟩)]
  · rw [if_pos h0]

theorem frameVerdict_reject_of_version {s : List UInt8} (hlen : 3 ≤ s.length)
    (hver : getU8 s 2 ≠ kProtocolVersion) : frameVerdict s = .reject := by
  by_cases hstx : getU8 s 0 = kStx0 ∧ getU8 s 1 = kStx1
  · simp only [frameVerdict]
    rw [if_neg (by omega), if_neg (by simp [hstx.1]), if_neg (by omega),
      if_neg (by simp [hstx.2]), if_neg (by omega), if_pos hver]
  · exact frameVerdict_reject_of_not_stx (by omega) hstx

theorem frameVerdict_of_stx {s : List UInt8} (hlen : kFrameOverhead ≤ s.length)
    (h0 : getU8 s 0 = kStx0) (h1 : getU8 s 1 = kStx1) :
    frameVerdict s =
      if getU8 s 2 ≠ kProtocolVersion then .reject
      else if s.length < kFrameOverhead + (getU8 s 3).toNat then .wait
      else if crc16 (slice s 2 (3 + (getU8 s 3).toNat)) ≠
        getU16LE s (5 + (getU8 s 3).toNat) then .reject
      else .accept (kFrameOverhead + (getU8 s 3).toNat) := by
  have hk := kFrameOverhead_eq
  simp only [frameVerdict]
  rw [if_neg (by omega), if_neg (by simp [h0]), if_neg (by omega), if_neg (by simp [h1]),
    if_neg (by omega : ¬s.length < 3), if_neg (by omega : ¬s.length < kFrameOverhead)]

/-- Fewer bytes than a frame overhead hold no frame: a scan of them only skips. -/
theorem exists_advance_wait_of_short {s : List UInt8} (hlen : s.length < kFrameOverhead)
    (c : Nat) : ∃ c' s', Advance frames c s [] c' s' ∧ frameVerdict s' = .wait := by
  induction s generalizing c with
  | nil => exact ⟨c, [], .refl _ _, rfl⟩
  | cons a s ih =>
      cases hv : frameVerdict (a :: s) with
      | wait => exact ⟨c, a :: s, .refl _ _, hv⟩
      | reject =>
          simp only [List.length_cons] at hlen
          obtain ⟨c', s', hadv, hw⟩ := ih (by omega) (c + 1)
          exact ⟨c', s', .skip hv hadv, hw⟩
      | accept k =>
          obtain ⟨n, -, hholds⟩ := frameVerdict_accept_iff.mp hv
          have hfits := hholds.fits
          omega

theorem advance_findStx (c : Nat) (buf : List UInt8) :
    Advance frames c buf [] (c + findStx buf) (buf.drop (findStx buf)) := by
  have hle : findStx buf ≤ buf.length := by
    cases buf with
    | nil => simp [findStx]
    | cons a s => exact (findStx_lt _ (by simp)).le
  have hskip : ∀ k < (buf.take (findStx buf)).length,
      frames.verdict ((buf.take (findStx buf)).drop k ++ buf.drop (findStx buf)) =
        .reject := by
    intro k hk
    rw [List.length_take, Nat.min_eq_left hle] at hk
    have hdrop : (buf.take (findStx buf)).drop k ++ buf.drop (findStx buf) = buf.drop k := by
      conv_rhs => rw [← List.take_append_drop (findStx buf) buf]
      rw [List.drop_append_of_le_length (by rw [List.length_take]; omega)]
    have hlt := findStx_lt buf (by rintro rfl; simp [findStx] at hk)
    rw [hdrop]
    refine frameVerdict_reject_of_not_stx (by rw [List.length_drop]; omega) ?_
    rw [getU8_drop, getU8_drop]
    exact not_stx_of_lt_findStx hk
  have hadv := advance_of_reject_prefix (R := frames) c hskip
  rwa [List.take_append_drop, List.length_take, Nat.min_eq_left hle] at hadv

/-- The checks that follow the STX search, read as the verdict at `pos`. -/
theorem frameVerdict_drop_findStx {buf : List UInt8} {pos : Nat} (hpos : findStx buf = pos)
    (hlast : ¬pos + 1 ≥ buf.length) (hshort : ¬buf.length - pos < kFrameOverhead) :
    frameVerdict (buf.drop pos) =
      if getU8 buf (pos + 2) ≠ kProtocolVersion then .reject
      else if buf.length - pos < kFrameOverhead + (getU8 buf (pos + 3)).toNat then .wait
      else if crc16 (slice buf (pos + 2) (3 + (getU8 buf (pos + 3)).toNat)) ≠
        getU16LE buf (pos + (kFrameOverhead + (getU8 buf (pos + 3)).toNat) - 2) then .reject
      else .accept (kFrameOverhead + (getU8 buf (pos + 3)).toNat) := by
  have hk := kFrameOverhead_eq
  obtain ⟨h0, h1⟩ := stx_of_findStx buf (by omega)
  rw [frameVerdict_of_stx (by rw [List.length_drop]; omega) (by rwa [getU8_drop, ← hpos])
    (by rwa [getU8_drop, ← hpos]), List.length_drop, slice_drop, getU16LE_drop, getU8_drop,
    getU8_drop, show pos + (5 + (getU8 buf (pos + 3)).toNat) =
      pos + (kFrameOverhead + (getU8 buf (pos + 3)).toNat) - 2 by omega]

/-- What a call does to the stream.  One that returns `nullopt` passes rejected
bytes only and leaves too little for a verdict; one that returns a frame has found
it in the stream, past rejected bytes. -/
def Extracts (c : Nat) (buf : List UInt8) : Option (List UInt8) → List UInt8 → Prop
  | none, buf' => (∃ c', Advance frames c buf [] c' buf') ∧
      (buf'.length < kFrameOverhead ∨ frameVerdict buf' = .wait)
  | some frame, buf' => ∃ i, Advance frames c buf [(i, frame)] (i + frame.length) buf'

theorem Extracts.of_advance {c c' : Nat} {buf buf' buf'' : List UInt8}
    {r : Option (List UInt8)} (hadv : Advance frames c buf [] c' buf')
    (h : Extracts c' buf' r buf'') : Extracts c buf r buf'' := by
  cases r with
  | none =>
      obtain ⟨⟨c'', hrest⟩, hleft⟩ := h
      exact ⟨⟨c'', hadv.trans hrest⟩, hleft⟩
  | some frame =>
      obtain ⟨i, hrest⟩ := h
      exact ⟨i, hadv.trans hrest⟩

/-- The same for each way out of a turn; one that goes round again has passed
rejected bytes. -/
theorem turn_spec (c : Nat) {buf : List UInt8} (hlen : kFrameOverhead ≤ buf.length) :
    match turn buf with
    | .again buf' => ∃ c', Advance frames c buf [] c' buf'
    | .done r buf' => Extracts c buf r buf' := by
  have hadv := advance_findStx c buf
  have hlt := findStx_lt buf (by rintro rfl; simp [kFrameOverhead] at hlen)
  simp only [kFrameOverhead] at hlen
  generalize hpos : findStx buf = pos at hadv hlt
  -- a rejected byte at `pos` is passed as well
  have hpass : frameVerdict (buf.drop pos) = .reject →
      Advance frames c buf [] (c + pos + 1) (buf.drop (pos + 1)) := by
    intro hv
    rw [List.drop_eq_getElem_cons hlt] at hv hadv
    exact hadv.trans (.skip hv (.refl _ _))
  have hk := kFrameOverhead_eq
  have hverdict := frameVerdict_drop_findStx hpos
  simp only [turn, hpos]
  split_ifs with hlast hback hshort hver htotal hcrc
  · -- no STX pair, last byte kept
    exact ⟨⟨_, hadv⟩, .inl (by rw [List.length_drop]; omega)⟩
  · -- no STX pair, nothing kept
    refine ⟨⟨c + pos + 1, ?_⟩, .inr rfl⟩
    have hreject : frameVerdict (buf.drop pos) = .reject := by
      simp only [frameVerdict, getU8_drop, List.length_drop]
      rw [if_neg (by omega), if_pos (by rwa [show pos + 0 = buf.length - 1 by omega])]
    simpa [List.drop_eq_nil_of_le (show buf.length ≤ pos + 1 by omega)] using hpass hreject
  · -- header incomplete
    exact ⟨⟨_, hadv⟩, .inl (by rw [List.length_drop]; omega)⟩
  · -- wrong version
    exact ⟨_, hpass (by rw [hverdict hlast hshort, if_pos hver])⟩
  · -- payload incomplete
    exact ⟨⟨_, hadv⟩, .inr (by rw [hverdict hlast hshort, if_neg hver, if_pos htotal])⟩
  · -- CRC mismatch
    exact ⟨_, hpass (by rw [hverdict hlast hshort, if_neg hver, if_neg htotal, if_pos hcrc])⟩
  · -- frame found
    have hv : frameVerdict (buf.drop pos) =
        .accept (kFrameOverhead + (getU8 buf (pos + 3)).toNat) := by
      rw [hverdict hlast hshort, if_neg hver, if_neg htotal, if_neg hcrc]
    have hemit := hadv.trans (Advance.single (c + pos) hv)
    refine ⟨c + pos, ?_⟩
    rw [length_slice (by omega)]
    simpa [slice, List.drop_drop] using hemit

theorem nextFrame_spec (c : Nat) (p : FrameParser) :
    Extracts c p.buf p.nextFrame.1 p.nextFrame.2.buf := by
  refine nextFrame_rule (Q := fun buf r buf' => ∀ c, Extracts c buf r buf') ?_ ?_ ?_ p c
  · intro buf hshort c
    exact ⟨⟨c, .refl _ _⟩, .inl hshort⟩
  · intro buf frame buf' hlen hturn c
    have hspec := turn_spec c hlen
    rwa [hturn] at hspec
  · intro buf buf' frame buf'' hlen hturn ih c
    have hspec := turn_spec c hlen
    rw [hturn] at hspec
    obtain ⟨c', hadv⟩ := hspec
    exact .of_advance hadv (ih c')

end RovSdk.FrameRecognizer
