import RovSdk.ProtocolBytes

namespace RovSdk.FrameFormat

open RovSdk.ByteWords
open RovSdk.ListSlices
open RovSdk.ProtocolBytes

def frameBody (payload : List UInt8) (type : UInt8) : List UInt8 :=
  kProtocolVersion :: UInt8.ofNat payload.length :: type :: payload

theorem length_frameBody (payload : List UInt8) (type : UInt8) :
    (frameBody payload type).length = 3 + payload.length := by
  simp only [frameBody, List.length_cons]
  omega

theorem encodeFrame_eq (payload : List UInt8) (type : UInt8) :
    encodeFrame payload type = kStx0 :: kStx1 ::
      (frameBody payload type ++ bytesU16LE (crc16 (frameBody payload type))) := by
  have hbody : slice (kStx0 :: kStx1 :: frameBody payload type) 2 (3 + payload.length) =
      frameBody payload type := by
    rw [slice, ← length_frameBody payload type]
    simp
  simp only [encodeFrame, putU16LE_eq]
  change (kStx0 :: kStx1 :: frameBody payload type) ++ bytesU16LE (crc16
    (slice (kStx0 :: kStx1 :: frameBody payload type) 2 (3 + payload.length))) = _
  rw [hbody]
  rfl

@[simp] theorem length_encodeFrame (payload : List UInt8) (type : UInt8) :
    (encodeFrame payload type).length = kFrameOverhead + payload.length := by
  simp only [encodeFrame_eq, List.length_cons, List.length_append, length_frameBody,
    length_bytesU16LE, kFrameOverhead]
  omega

/-- `f` is a frame that some sender could have built. -/
def ValidFrame (f : List UInt8) : Prop :=
  ∃ payload type, payload.length ≤ 255 ∧ f = encodeFrame payload type

/-- The bytes at the head of `s` form a frame with an `n`-byte payload. -/
structure HoldsFrame (s : List UInt8) (n : Nat) : Prop where
  fits : kFrameOverhead + n ≤ s.length
  stx0 : getU8 s 0 = kStx0
  stx1 : getU8 s 1 = kStx1
  version : getU8 s 2 = kProtocolVersion
  len : (getU8 s 3).toNat = n
  crc : crc16 (slice s 2 (3 + n)) = getU16LE s (5 + n)

theorem HoldsFrame.le_255 {s : List UInt8} {n : Nat} (h : HoldsFrame s n) : n ≤ 255 := by
  have hlt := (getU8 s 3).toNat_lt
  have hlen := h.len
  omega

theorem holdsFrame_encodeFrame_append {payload : List UInt8} (hlen : payload.length ≤ 255)
    (type : UInt8) (t : List UInt8) :
    HoldsFrame (encodeFrame payload type ++ t) payload.length := by
  have hsplit : encodeFrame payload type ++ t = [kStx0, kStx1] ++
      (frameBody payload type ++ (bytesU16LE (crc16 (frameBody payload type)) ++ t)) := by
    rw [encodeFrame_eq]
    simp
  have hbody := length_frameBody payload type
  refine ⟨by simp, ?_, ?_, ?_, ?_, ?_⟩
  · rw [hsplit]; rfl
  · rw [hsplit]; rfl
  · rw [hsplit]; rfl
  · rw [hsplit]
    change (UInt8.ofNat payload.length).toNat = payload.length
    rw [UInt8.toNat_ofNat']
    omega
  · have hcovered : slice (encodeFrame payload type ++ t) 2 (3 + payload.length) =
        frameBody payload type := by
      rw [hsplit]
      exact slice_middle rfl hbody
    have hcrc : slice (encodeFrame payload type ++ t) (5 + payload.length) 2 =
        bytesU16LE (crc16 (frameBody payload type)) := by
      rw [hsplit, ← List.append_assoc]
      refine slice_middle ?_ rfl
      rw [List.length_append, hbody, List.length_cons, List.length_singleton]
      omega
    rw [hcovered, getU16LE_of_slice hcrc]

/-- What the checks accept is a frame the encoder builds, followed by anything. -/
theorem HoldsFrame.eq_encodeFrame_append {s : List UInt8} {n : Nat} (h : HoldsFrame s n) :
    s = encodeFrame (slice s 5 n) (getU8 s 4) ++ s.drop (kFrameOverhead + n) := by
  have hfits := h.fits
  simp only [kFrameOverhead] at hfits
  have hpayload : (slice s 5 n).length = n := length_slice (by omega)
  have hlen : UInt8.ofNat n = getU8 s 3 := by rw [← h.len, UInt8.ofNat_toNat]
  have hbody : slice s 2 (3 + n) = frameBody (slice s 5 n) (getU8 s 4) := by
    have hsplit : slice s 2 (3 + n) =
        slice s 2 1 ++ (slice s 3 1 ++ (slice s 4 1 ++ slice s 5 n)) := by
      rw [slice_append_slice s 4 1, slice_append_slice s 3 1, slice_append_slice s 2 1]
      congr 1
      omega
    rw [hsplit, slice_one (by omega) 0, slice_one (by omega) 0, slice_one (by omega) 0,
      frameBody, hpayload, hlen, ← h.version]
    rfl
  have hcrc : slice s (5 + n) 2 = bytesU16LE (crc16 (slice s 2 (3 + n))) := by
    rw [h.crc, bytesU16LE_getU16LE (by omega)]
  calc
    s = s.take (kFrameOverhead + n) ++ s.drop (kFrameOverhead + n) :=
      (List.take_append_drop _ s).symm
    _ = slice s 0 (1 + (1 + (3 + n + 2))) ++ s.drop (kFrameOverhead + n) := by
      simp only [slice, List.drop_zero, kFrameOverhead]
      congr 2
      omega
    _ = encodeFrame (slice s 5 n) (getU8 s 4) ++ s.drop (kFrameOverhead + n) := by
      rw [encodeFrame_eq, ← hbody, ← hcrc, ← slice_append_slice s 0 1,
        ← slice_append_slice s (0 + 1) 1, ← slice_append_slice s (0 + 1 + 1) (3 + n),
        slice_one (by omega) 0, slice_one (by omega) 0, ← h.stx0, ← h.stx1]
      simp only [getU8, List.cons_append, List.nil_append, List.append_assoc]
      congr 5
      omega

theorem holdsFrame_iff {s : List UInt8} {n : Nat} :
    HoldsFrame s n ↔ ∃ payload type t, payload.length = n ∧ n ≤ 255 ∧
      s = encodeFrame payload type ++ t := by
  constructor
  · intro h
    have hfits := h.fits
    simp only [kFrameOverhead] at hfits
    exact ⟨_, _, _, length_slice (by omega), h.le_255, h.eq_encodeFrame_append⟩
  · rintro ⟨payload, type, t, rfl, hlen, rfl⟩
    exact holdsFrame_encodeFrame_append hlen type t

theorem HoldsFrame.append {s : List UInt8} {n : Nat} (h : HoldsFrame s n)
    (t : List UInt8) : HoldsFrame (s ++ t) n := by
  obtain ⟨payload, type, u, hn, hle, rfl⟩ := holdsFrame_iff.mp h
  exact holdsFrame_iff.mpr ⟨payload, type, u ++ t, hn, hle, by simp⟩

theorem HoldsFrame.validFrame_take {s : List UInt8} {n : Nat} (h : HoldsFrame s n) :
    ValidFrame (s.take (kFrameOverhead + n)) := by
  obtain ⟨payload, type, t, rfl, hle, rfl⟩ := holdsFrame_iff.mp h
  refine ⟨payload, type, hle, ?_⟩
  rw [← length_encodeFrame payload type]
  simp

theorem holdsFrame_exact_iff {s : List UInt8} {n : Nat} :
    HoldsFrame s n ∧ s.length = kFrameOverhead + n ↔
      ∃ payload type, payload.length = n ∧ n ≤ 255 ∧ s = encodeFrame payload type := by
  constructor
  · rintro ⟨h, hexact⟩
    obtain ⟨payload, type, t, rfl, hle, rfl⟩ := holdsFrame_iff.mp h
    have ht : t = [] := by
      rw [List.length_append, length_encodeFrame] at hexact
      exact List.eq_nil_of_length_eq_zero (by omega)
    exact ⟨payload, type, rfl, hle, by simp [ht]⟩
  · rintro ⟨payload, type, rfl, hle, rfl⟩
    refine ⟨?_, length_encodeFrame payload type⟩
    simpa using holdsFrame_encodeFrame_append hle type []

theorem getU8_encodeFrame_append_type (payload : List UInt8) (type : UInt8)
    (t : List UInt8) : getU8 (encodeFrame payload type ++ t) 4 = type := by
  rw [encodeFrame_eq]
  rfl

theorem encodeFrame_append_inj {p q : List UInt8} {a b : UInt8} {t u : List UInt8}
    (hlen : p.length = q.length)
    (h : encodeFrame p a ++ t = encodeFrame q b ++ u) : p = q ∧ a = b ∧ t = u := by
  obtain ⟨hframe, ht⟩ := List.append_inj h (by simp [hlen])
  rw [encodeFrame_eq, encodeFrame_eq] at hframe
  simp only [List.cons.injEq, true_and] at hframe
  obtain ⟨hbody, -⟩ := List.append_inj hframe (by simp [length_frameBody, hlen])
  simp only [frameBody, List.cons.injEq] at hbody
  exact ⟨hbody.2.2.2, hbody.2.2.1, ht⟩

theorem validateFrameHeader_iff_holdsFrame {s : List UInt8} {type : UInt8} {n : Nat} :
    validateFrameHeader s type n = true ↔ HoldsFrame s n ∧ getU8 s 4 = type := by
  have hoff : kFrameOverhead + n - 2 = 5 + n := by simp only [kFrameOverhead]; omega
  simp only [validateFrameHeader, hoff]
  constructor
  · intro h
    split_ifs at h with hsize hstx hver hlen htype hcrc
    simp only [not_or, not_not] at hstx hver hlen htype hcrc
    exact ⟨⟨by omega, hstx.1, hstx.2, hver, hlen, hcrc⟩, htype⟩
  · rintro ⟨⟨hfits, h0, h1, h2, h3, hcrc⟩, htype⟩
    rw [if_neg (by omega), if_neg (by simp [h0, h1]), if_neg (by simp [h2]),
      if_neg (by simp [h3]), if_neg (by simp [htype]), if_neg (by simp [hcrc])]

theorem validateFrameHeader_iff {s : List UInt8} {type : UInt8} {n : Nat} (hn : n ≤ 255) :
    validateFrameHeader s type n = true ↔
      ∃ payload t, payload.length = n ∧ s = encodeFrame payload type ++ t := by
  rw [validateFrameHeader_iff_holdsFrame, holdsFrame_iff]
  constructor
  · rintro ⟨⟨payload, type', t, hlen, -, rfl⟩, htype⟩
    rw [getU8_encodeFrame_append_type] at htype
    exact ⟨payload, t, hlen, by rw [htype]⟩
  · rintro ⟨payload, t, hlen, rfl⟩
    exact ⟨⟨payload, type, t, hlen, hn, rfl⟩, getU8_encodeFrame_append_type _ _ _⟩

end RovSdk.FrameFormat
