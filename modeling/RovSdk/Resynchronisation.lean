import RovSdk.GreedySelection
import RovSdk.PacketRoundtrip

namespace RovSdk.Resynchronisation

open RovSdk.GreedyScan
open RovSdk.ProtocolBytes
open RovSdk.FrameFormat
open RovSdk.FrameRecognizer
open RovSdk.ParserSessions
open RovSdk.GreedySelection
open RovSdk.Packets
open RovSdk.PacketRoundtrip

/-- No frame occurs in `n ++ t` across the end of `n`. -/
def NoStraddle (n t : List UInt8) : Prop :=
  ∀ a b u, n ++ t = a ++ b ++ u → ValidFrame b → a.length < n.length →
    a.length + b.length ≤ n.length

theorem noStraddle_iff {n t : List UInt8} :
    NoStraddle n t ↔ ∀ i < n.length, Candidate (n ++ t) i → Valid (n ++ t) i →
      i + announced (n ++ t) i ≤ n.length := by
  constructor
  · intro h i hi hcand hvalid
    obtain ⟨k, hk, hholds⟩ :=
      frameVerdict_accept_iff.mp (frameVerdict_drop_accept_iff.mpr ⟨hcand, hvalid, rfl⟩)
    have hend := h ((n ++ t).take i) _ _
      (by rw [List.append_assoc, List.take_append_drop, List.take_append_drop])
      hholds.validFrame_take (by rw [List.length_take]; omega)
    rwa [List.length_take, List.length_take, Nat.min_eq_left hholds.fits, ← hk,
      Nat.min_eq_left (by rw [List.length_append]; omega)] at hend
  · rintro h a b u hsplit ⟨payload, type, hle, rfl⟩ ha
    have hv := frameVerdict_encodeFrame_append hle type u
    rw [← @List.drop_left _ a (encodeFrame payload type ++ u), ← List.append_assoc,
      ← hsplit] at hv
    obtain ⟨hcand, hvalid, hlen⟩ := frameVerdict_drop_accept_iff.mp hv
    rw [hlen]
    exact h a.length ha hcand hvalid

instance (n t : List UInt8) : Decidable (NoStraddle n t) :=
  decidable_of_iff _ noStraddle_iff.symm

/-- A false header before a frame is decided by 258 bytes from the frame on. -/
theorem not_undecided_of_candidate {n f r : List UInt8} (hf : ValidFrame f)
    (hlen : 258 ≤ (f ++ r).length) {i : Nat} (hi : i < n.length)
    (hcand : Candidate (n ++ (f ++ r)) i) : ¬Undecided (n ++ (f ++ r)) i := by
  have hk := kFrameOverhead_eq
  have hbyte : ∀ k, (getU8 (n ++ (f ++ r)) k).toNat < 256 := fun k => UInt8.toNat_lt _
  have hstx : getU8 (n ++ (f ++ r)) n.length = kStx0 := by
    obtain ⟨payload, type, -, rfl⟩ := hf
    simp [getU8, encodeFrame_eq]
  obtain ⟨-, h1, h2⟩ := (candidate_iff hcand.length_le).mp hcand
  simp only [Undecided, announced, @List.length_append _ n]
  -- the header ends before the frame or has its length byte there
  rcases (by omega : i + 4 ≤ n.length ∨ i + 3 = n.length ∨ i + 2 = n.length ∨
    i + 1 = n.length) with h | h | h | h
  · have hlt := hbyte (i + 3)
    omega
  · have hlt : (getU8 (n ++ (f ++ r)) (i + 3)).toNat = 170 := by
      rw [h, hstx]
      rfl
    omega
  · rw [h, hstx] at h2
    exact absurd h2 (by decide)
  · rw [h, hstx] at h1
    exact absurd h1 (by decide)

theorem mem_scan_of_le {n f r : List UInt8} (hf : ValidFrame f)
    (hlen : 258 ≤ (f ++ r).length) (hstraddle : NoStraddle n (f ++ r)) {c : Nat}
    (hc : c ≤ n.length) :
    (n.length, f) ∈ scan frames c ((n ++ (f ++ r)).drop c) := by
  have hk := kFrameOverhead_eq
  induction hrest : n.length - c using Nat.strongRecOn generalizing c with
  | _ rest ih =>
      rcases Nat.eq_or_lt_of_le hc with rfl | hlt
      · obtain ⟨payload, type, hle, rfl⟩ := hf
        have hv := frameVerdict_encodeFrame_append hle type r
        rw [List.drop_left, scan_of_accept (s := encodeFrame payload type ++ r) hv,
          List.take_left]
        exact List.mem_cons_self
      have hlength : (n ++ (f ++ r)).length = n.length + (f ++ r).length :=
        List.length_append
      have hskip : frameVerdict ((n ++ (f ++ r)).drop c) = .reject →
          (n.length, f) ∈ scan frames c ((n ++ (f ++ r)).drop c) := by
        intro hv
        have hnext := ih (n.length - (c + 1)) (by omega) hlt rfl
        rw [List.drop_eq_getElem_cons (by omega)] at hv ⊢
        rwa [scan_of_reject hv]
      by_cases hcand : Candidate (n ++ (f ++ r)) c
      · have hv := frameVerdict_of_candidate (by omega) hcand
        rw [if_neg (not_undecided_of_candidate hf hlen hlt hcand)] at hv
        by_cases hvalid : Valid (n ++ (f ++ r)) c
        · rw [if_pos hvalid] at hv
          have hend := noStraddle_iff.mp hstraddle c hlt hcand hvalid
          rw [scan_of_accept (R := frames) hv, List.drop_drop]
          exact List.mem_cons_of_mem _
            (ih _ (by simp only [announced] at hend ⊢; omega) hend rfl)
        · rw [if_neg hvalid] at hv
          exact hskip hv
      · exact hskip (frameVerdict_of_not_candidate (by omega) hcand)

/-- Whatever garbage comes before a frame, however the bytes arrive and whenever the
parser is polled, it returns the frame at its place once 258 bytes from the start of
the frame on have been fed, unless some frame straddles that start. -/
theorem frame_after_garbage_returned {n f r : List UInt8} {calls : List Call}
    (hf : ValidFrame f) (hlen : 258 ≤ (f ++ r).length)
    (hstraddle : NoStraddle n (f ++ r))
    (hfed : (session calls).fed = n ++ (f ++ r)) :
    (n.length, f) ∈ (session (polled calls)).returned := by
  rw [returned_polled, hfed]
  exact mem_scan_of_le (c := 0) hf hlen hstraddle (Nat.zero_le _)

theorem command_after_false_header_returned :
    (4, encodeCmd {}) ∈ (session (polled [.feed [kStx0, kStx1, kProtocolVersion, 0],
      .nextFrame, .feed (encodeCmd {} ++ List.replicate 199 0)])).returned :=
  frame_after_garbage_returned (n := [kStx0, kStx1, kProtocolVersion, 0])
    (r := List.replicate 199 0) (validFrame_encode (k := .cmd) {})
    (by rw [List.length_append, length_encodeCmd, List.length_replicate]; decide)
    (by decide +kernel) rfl

end RovSdk.Resynchronisation
