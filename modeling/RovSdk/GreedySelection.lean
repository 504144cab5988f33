import RovSdk.ParserSessions

namespace RovSdk.GreedySelection

open RovSdk.ListSlices
open RovSdk.GreedyScan
open RovSdk.ProtocolBytes
open RovSdk.FrameFormat
open RovSdk.FrameRecognizer
open RovSdk.StreamParser
open RovSdk.ParserSessions

/-- A frame may start at offset `i`. -/
def Candidate (s : List UInt8) (i : Nat) : Prop :=
  slice s i 3 = [kStx0, kStx1, kProtocolVersion]

/-- The length of the frame that the header at offset `i` announces. -/
def announced (s : List UInt8) (i : Nat) : Nat :=
  kFrameOverhead + (getU8 s (i + 3)).toNat

/-- The string ends before the frame at offset `i` is complete. -/
def Undecided (s : List UInt8) (i : Nat) : Prop :=
  s.length - i < kFrameOverhead ∨ s.length - i < announced s i

/-- The frame at offset `i` is complete and its CRC matches. -/
def Valid (s : List UInt8) (i : Nat) : Prop :=
  ¬Undecided s i ∧
    crc16 (slice s (i + 2) (3 + (getU8 s (i + 3)).toNat)) =
      getU16LE s (i + 5 + (getU8 s (i + 3)).toNat)

instance (s : List UInt8) (i : Nat) : Decidable (Candidate s i) :=
  inferInstanceAs (Decidable (_ = _))

instance (s : List UInt8) (i : Nat) : Decidable (Undecided s i) :=
  inferInstanceAs (Decidable (_ ∨ _))

instance (s : List UInt8) (i : Nat) : Decidable (Valid s i) :=
  inferInstanceAs (Decidable (_ ∧ _))

/-- The least candidate from `c` on that is undecided or valid. -/
def nextSelected (s : List UInt8) (c : Nat) : Option Nat :=
  (List.range' c (s.length - c)).find? fun i =>
    decide (Candidate s i ∧ (Undecided s i ∨ Valid s i))

theorem nextSelected_eq_some_iff {s : List UInt8} {c i : Nat} :
    nextSelected s c = some i ↔
      (c ≤ i ∧ i < s.length) ∧ (Candidate s i ∧ (Undecided s i ∨ Valid s i)) ∧
        ∀ j, c ≤ j → j < i → ¬(Candidate s j ∧ (Undecided s j ∨ Valid s j)) := by
  rw [nextSelected, List.find?_range'_eq_some]
  simp only [decide_eq_true_eq, List.mem_range'_1, Bool.not_eq_true', decide_eq_false_iff_not]
  constructor
  · rintro ⟨hsel, hrange, hmin⟩
    exact ⟨by omega, hsel, hmin⟩
  · rintro ⟨hrange, hsel, hmin⟩
    exact ⟨hsel, by omega, hmin⟩

def selectionFrom (s : List UInt8) (c : Nat) : List (Nat × List UInt8) :=
  match _h : nextSelected s c with
  | none => []
  | some i =>
      if Undecided s i then []
      else (i, slice s i (announced s i)) :: selectionFrom s (i + announced s i)
termination_by s.length - c
decreasing_by
  obtain ⟨⟨hle, hlt⟩, -, -⟩ := nextSelected_eq_some_iff.mp _h
  simp only [announced, kFrameOverhead]
  omega

def selection (s : List UInt8) : List (Nat × List UInt8) := selectionFrom s 0

/-- The frames of the greedy leftmost selection. -/
def ref (s : List UInt8) : List (List UInt8) := (selection s).map Prod.snd

theorem selectionFrom_of_none {s : List UInt8} {c : Nat} (h : nextSelected s c = none) :
    selectionFrom s c = [] := by
  rw [selectionFrom]
  split <;> simp_all

theorem selectionFrom_of_some {s : List UInt8} {c i : Nat} (h : nextSelected s c = some i) :
    selectionFrom s c = if Undecided s i then []
      else (i, slice s i (announced s i)) :: selectionFrom s (i + announced s i) := by
  rw [selectionFrom]
  split <;> simp_all

theorem selectionFrom_succ {s : List UInt8} {c : Nat} (hc : c < s.length)
    (h : ¬(Candidate s c ∧ (Undecided s c ∨ Valid s c))) :
    selectionFrom s c = selectionFrom s (c + 1) := by
  have hnext : nextSelected s c = nextSelected s (c + 1) := by
    obtain ⟨k, hk⟩ : ∃ k, s.length - c = k + 1 := ⟨s.length - c - 1, by omega⟩
    rw [nextSelected, nextSelected, hk, show s.length - (c + 1) = k by omega,
      List.range'_succ, List.find?_cons_of_neg (by simpa using h)]
  cases hsel : nextSelected s c with
  | none => rw [selectionFrom_of_none hsel, selectionFrom_of_none (hnext.symm.trans hsel)]
  | some i => rw [selectionFrom_of_some hsel, selectionFrom_of_some (hnext.symm.trans hsel)]

theorem selectionFrom_self {s : List UInt8} {c : Nat}
    (hcand : Candidate s c) (hsel : Undecided s c ∨ Valid s c) :
    selectionFrom s c = if Undecided s c then []
      else (c, slice s c (announced s c)) :: selectionFrom s (c + announced s c) := by
  have hlen := congrArg List.length hcand
  simp only [slice, List.length_take, List.length_drop, List.length_cons,
    List.length_nil] at hlen
  exact selectionFrom_of_some (nextSelected_eq_some_iff.mpr
    ⟨⟨le_rfl, by omega⟩, ⟨hcand, hsel⟩, fun j hle hlt => absurd hle (by omega)⟩)

theorem candidate_iff {s : List UInt8} {i : Nat} (hlen : i + 3 ≤ s.length) :
    Candidate s i ↔ getU8 s i = kStx0 ∧ getU8 s (i + 1) = kStx1 ∧
      getU8 s (i + 2) = kProtocolVersion := by
  have hsplit : slice s i 3 = [getU8 s i, getU8 s (i + 1), getU8 s (i + 2)] := by
    rw [← slice_append_slice s i 1 2, ← slice_append_slice s (i + 1) 1 1,
      slice_one (by omega) 0, slice_one (by omega) 0, slice_one (by omega) 0]
    rfl
  simp [Candidate, hsplit]

theorem selectionFrom_of_short {s : List UInt8} {c : Nat}
    (hshort : s.length - c < kFrameOverhead) : selectionFrom s c = [] := by
  cases hsel : nextSelected s c with
  | none => exact selectionFrom_of_none hsel
  | some i =>
      obtain ⟨⟨hle, -⟩, -, -⟩ := nextSelected_eq_some_iff.mp hsel
      rw [selectionFrom_of_some hsel, if_pos (.inl (by omega))]

theorem frameVerdict_of_candidate {s : List UInt8} {i : Nat}
    (hlen : kFrameOverhead ≤ s.length - i) (hcand : Candidate s i) :
    frameVerdict (s.drop i) = if Undecided s i then .wait
      else if Valid s i then .accept (announced s i) else .reject := by
  have hk := kFrameOverhead_eq
  obtain ⟨h0, h1, h2⟩ := (candidate_iff (by omega)).mp hcand
  rw [frameVerdict_of_stx (by rwa [List.length_drop]) (by rwa [getU8_drop])
    (by rwa [getU8_drop]), getU8_drop, getU8_drop, slice_drop, getU16LE_drop,
    List.length_drop, if_neg (by simp [h2]), ← Nat.add_assoc]
  change (if s.length - i < announced s i then _ else _) = _
  by_cases hund : Undecided s i
  · rw [if_pos hund, if_pos (hund.resolve_left (by omega))]
  · rw [if_neg hund, if_neg (fun h => hund (.inr h))]
    by_cases hcrc : crc16 (slice s (i + 2) (3 + (getU8 s (i + 3)).toNat)) =
        getU16LE s (i + 5 + (getU8 s (i + 3)).toNat)
    · rw [if_neg (by simp [hcrc]), if_pos ⟨hund, hcrc⟩]
      rfl
    · rw [if_pos hcrc, if_neg (fun h => hcrc h.2)]

theorem frameVerdict_of_not_candidate {s : List UInt8} {i : Nat}
    (hlen : i + 3 ≤ s.length) (hcand : ¬Candidate s i) :
    frameVerdict (s.drop i) = .reject := by
  rw [candidate_iff hlen] at hcand
  by_cases hver : getU8 s (i + 2) = kProtocolVersion
  · refine frameVerdict_reject_of_not_stx (by rw [List.length_drop]; omega) ?_
    rw [getU8_drop, getU8_drop]
    exact fun h => hcand ⟨h.1, h.2, hver⟩
  · exact frameVerdict_reject_of_version (by rw [List.length_drop]; omega)
      (by rwa [getU8_drop])

theorem candidate_of_frameVerdict_accept {s : List UInt8} {i n : Nat}
    (h : frameVerdict (s.drop i) = .accept n) : Candidate s i := by
  obtain ⟨k, -, hholds⟩ := frameVerdict_accept_iff.mp h
  have hk := kFrameOverhead_eq
  have hfits := hholds.fits
  rw [List.length_drop] at hfits
  refine (candidate_iff (by omega)).mpr ⟨?_, ?_, ?_⟩
  · simpa [getU8_drop] using hholds.stx0
  · simpa [getU8_drop] using hholds.stx1
  · simpa [getU8_drop] using hholds.version

theorem Candidate.length_le {s : List UInt8} {i : Nat} (h : Candidate s i) :
    i + 3 ≤ s.length := by
  have hlen := congrArg List.length h
  simp only [slice, List.length_take, List.length_drop, List.length_cons,
    List.length_nil] at hlen
  omega

theorem Candidate.append {s : List UInt8} {i : Nat} (h : Candidate s i) (t : List UInt8) :
    Candidate (s ++ t) i := by
  rw [Candidate, slice_append_left h.length_le, h]

theorem frameVerdict_drop_accept_iff {s : List UInt8} {i n : Nat} :
    frameVerdict (s.drop i) = .accept n ↔ Candidate s i ∧ Valid s i ∧ n = announced s i := by
  constructor
  · intro h
    have hcand := candidate_of_frameVerdict_accept h
    obtain ⟨k, -, hholds⟩ := frameVerdict_accept_iff.mp h
    have hfits := hholds.fits
    rw [List.length_drop] at hfits
    rw [frameVerdict_of_candidate (by omega) hcand] at h
    split_ifs at h with hund hvalid
    exact ⟨hcand, hvalid, (Verdict.accept.inj h).symm⟩
  · rintro ⟨hcand, hvalid, rfl⟩
    have hlong : ¬s.length - i < kFrameOverhead := fun hshort => hvalid.1 (.inl hshort)
    rw [frameVerdict_of_candidate (by omega) hcand, if_neg hvalid.1, if_pos hvalid]

/-- Scanning the rest of the string byte by byte makes the selection. -/
theorem scan_drop_eq_selectionFrom (s : List UInt8) (c : Nat) :
    scan frames c (s.drop c) = selectionFrom s c := by
  have hk := kFrameOverhead_eq
  induction hrest : s.length - c using Nat.strongRecOn generalizing c with
  | _ rest ih =>
      by_cases hshort : s.length - c < kFrameOverhead
      · obtain ⟨c', s', hadv, hw⟩ := exists_advance_wait_of_short
          (s := s.drop c) (by rwa [List.length_drop]) c
        rw [hadv.scan_eq_nil_of_wait hw, selectionFrom_of_short hshort]
      have hskip : frameVerdict (s.drop c) = .reject →
          scan frames c (s.drop c) = selectionFrom s (c + 1) := by
        intro hv
        rw [List.drop_eq_getElem_cons (by omega)] at hv ⊢
        rw [scan_of_reject hv, ih (s.length - (c + 1)) (by omega) (c + 1) rfl]
      by_cases hcand : Candidate s c
      · have hv := frameVerdict_of_candidate (not_lt.mp hshort) hcand
        by_cases hund : Undecided s c
        · rw [if_pos hund] at hv
          rw [scan_of_wait hv, selectionFrom_self hcand (.inl hund), if_pos hund]
        · rw [if_neg hund] at hv
          by_cases hvalid : Valid s c
          · rw [if_pos hvalid] at hv
            rw [scan_of_accept hv, selectionFrom_self hcand (.inr hvalid), if_neg hund,
              List.drop_drop, ih (s.length - (c + announced s c))
                (by simp only [announced]; omega) _ rfl]
            rfl
          · rw [if_neg hvalid] at hv
            exact (hskip hv).trans
              (selectionFrom_succ (by omega) fun h => h.2.elim hund hvalid).symm
      · exact (hskip (frameVerdict_of_not_candidate (by omega) hcand)).trans
          (selectionFrom_succ (by omega) fun h => hcand h.1).symm

theorem scan_eq_selection (s : List UInt8) : scan frames 0 s = selection s :=
  scan_drop_eq_selectionFrom s 0

/-- For every history of calls, what was returned since the last reset and what the
parser still returns when polled until `nullopt` are the frames of the greedy
selection on the bytes fed since then, in order, each at the offset selected. -/
theorem session_returns_selection (calls : List Call) :
    Drains (session calls).parser (session calls).parser.drain.1
        (session calls).parser.drain.2 ∧
      ((session calls).returned.map Prod.snd) ++ (session calls).parser.drain.1 =
        ref (session calls).fed ∧
      (session calls).returned <+: selection (session calls).fed := by
  obtain ⟨out, hscan, hmap⟩ := (session_consistent calls).returned_append_drain
  rw [scan_eq_selection] at hscan
  refine ⟨drains_drain _, ?_, ⟨out, hscan⟩⟩
  rw [ref, ← hscan, List.map_append, hmap]

end RovSdk.GreedySelection
