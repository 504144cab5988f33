import RovSdk.CrcPolynomial
import RovSdk.ValidatorAgreement

namespace RovSdk.TransmissionErrors

open RovSdk.ProtocolBytes
open RovSdk.FrameFormat
open RovSdk.Packets
open RovSdk.PacketRoundtrip
open RovSdk.FrameLink
open RovSdk.ValidatorAgreement
open RovSdk.BitPolynomial
open RovSdk.ShiftRegister
open RovSdk.CrcPolynomial

/-- A byte string with the error pattern `e` on it. -/
def xorBytes (f e : List UInt8) : List UInt8 := f.zipWith (· ^^^ ·) e

/-- An odd number of bits, two bits, or bits within 16 consecutive positions. -/
structure Detectable (e : List UInt8) : Prop where
  nonzero : ∃ b ∈ e, b ≠ 0
  pattern : Odd ((dataBits e).count true) ∨ (dataBits e).count true = 2 ∨
    ∃ i, ∀ j, (dataBits e)[j]? = some true → i ≤ j ∧ j < i + 16

theorem dataBits_xorBytes {f e : List UInt8} (h : f.length = e.length) :
    dataBits (xorBytes f e) = (dataBits f).zipWith xor (dataBits e) := by
  induction f generalizing e with
  | nil => rfl
  | cons b f ih =>
      obtain ⟨c, e, rfl⟩ := List.exists_cons_of_length_eq_add_one h.symm
      have htail := ih (e := e) (by simpa using h)
      simp only [dataBits, xorBytes, List.zipWith_cons_cons, List.map_cons,
        List.flatten_cons] at htail ⊢
      rw [htail, byteBits_xor, List.zipWith_append (by simp)]

theorem xorBytes_xorBytes {f e : List UInt8} (h : f.length = e.length) :
    xorBytes f (xorBytes f e) = e := by
  induction f generalizing e with
  | nil =>
      obtain rfl := List.length_eq_zero_iff.mp h.symm
      rfl
  | cons b f ih =>
      obtain ⟨c, e, rfl⟩ := List.exists_cons_of_length_eq_add_one h.symm
      have htail := ih (e := e) (by simpa using h)
      simp only [xorBytes, List.zipWith_cons_cons, ← UInt8.xor_assoc, UInt8.xor_self,
        UInt8.zero_xor] at htail ⊢
      rw [htail]

theorem true_mem_dataBits {e : List UInt8} (h : ∃ b ∈ e, b ≠ 0) : true ∈ dataBits e := by
  obtain ⟨b, hb, hne⟩ := h
  rw [dataBits, List.mem_flatten]
  refine ⟨byteBits b, List.mem_map_of_mem hb, ?_⟩
  by_contra hall
  refine hne (UInt8.toBitVec_inj.mp (BitVec.eq_of_getLsbD_eq fun i hi => ?_))
  rw [byteBits, List.mem_ofFn] at hall
  have hbit : b.toBitVec.getLsbD i = false :=
    Bool.eq_false_iff.mpr fun hset => hall ⟨⟨i, hi⟩, hset⟩
  rw [hbit]
  exact (BitVec.getLsbD_zero).symm

/-- A frame is two fixed bytes and then a message with its register. -/
theorem dataBits_encodeFrame (payload : List UInt8) (type : UInt8) :
    dataBits (encodeFrame payload type) = dataBits [kStx0, kStx1] ++
      (((frameBody payload type).map byteBits).flatten ++
        ((frameBody payload type).map byteBits).foldl (absorb crcTaps)
          (wordBits 0xFFFF)) := by
  rw [encodeFrame_eq, ← wordBits_crc16, ← dataBits_bytesU16LE, ← dataBits, ← dataBits_append,
    ← dataBits_append]
  rfl

/-- An error pattern that turns a frame into a frame is a multiple of the generator. -/
theorem generator_dvd_of_validFrame_xor {f e : List UInt8} (hf : ValidFrame f)
    (hlen : e.length = f.length) (h : ValidFrame (xorBytes f e)) :
    generator crcTaps ∣ ofBits (dataBits e) := by
  obtain ⟨payload, type, -, hframe⟩ := hf
  obtain ⟨payload', type', -, hframe'⟩ := h
  have hxor : (xorBytes f e).length = f.length := by simp [xorBytes, hlen]
  have hpayload : payload'.length = payload.length := by
    rw [hframe', length_encodeFrame] at hxor
    rw [hframe, length_encodeFrame] at hxor
    omega
  have hbits : dataBits e = (dataBits f).zipWith xor (dataBits (xorBytes f e)) := by
    rw [← dataBits_xorBytes hxor.symm, xorBytes_xorBytes hlen.symm]
  have hstx : ofBits ((dataBits [kStx0, kStx1]).zipWith xor (dataBits [kStx0, kStx1])) = 0 := by
    rw [ofBits_zipWith_xor rfl, CharTwo.add_self_eq_zero]
  rw [hbits, hframe', hframe, dataBits_encodeFrame, dataBits_encodeFrame,
    List.zipWith_append rfl, ofBits_append, hstx, zero_mul, zero_add]
  refine generator_dvd_codeword_xor (length_wordBits _)
    (fun _ => length_le_of_mem_map_byteBits) (fun _ => length_le_of_mem_map_byteBits) ?_
  rw [← dataBits, ← dataBits, length_dataBits, length_dataBits, length_frameBody,
    length_frameBody, hpayload]

theorem not_validFrame_xor {f e : List UInt8} (hf : ValidFrame f)
    (hlen : e.length = f.length) (he : Detectable e) : ¬ValidFrame (xorBytes f e) := by
  intro h
  have hdvd := generator_dvd_of_validFrame_xor hf hlen h
  have hX : IsCoprime (generator crcTaps) Polynomial.X := isCoprime_generator_X
    (crcTaps.take 15)
  have hbits : (dataBits e).length ≤ 2096 := by
    obtain ⟨payload, type, hle, rfl⟩ := hf
    have hk := kFrameOverhead_eq
    rw [length_dataBits, hlen, length_encodeFrame]
    omega
  rcases he.pattern with hodd | htwo | ⟨i, hwindow⟩
  · refine not_dvd_of_odd ?_ hodd hdvd
    rw [eval_one_generator]
    decide
  · exact not_dvd_of_count_eq_two hX
      (fun k hpos hk => not_generator_dvd_X_pow_add_one hpos (by omega)) htwo hdvd
  · refine not_dvd_of_window (w := 16) hX ?_ (true_mem_dataBits he.nonzero) hwindow hdvd
    rw [degree_generator, length_crcTaps]

/-- A datagram that is a frame with a detectable error on it is rejected by the datagram
path, and a packet's frame with such an error does not decode. -/
theorem transmission_errors_detected {f e : List UInt8} (hf : ValidFrame f)
    (hlen : e.length = f.length) (he : Detectable e) :
    (∀ (env : Env) (l : Link) (timeout : Int64),
        env.recvBytes l.timeouts.length = some (xorBytes f e) →
        (udpRecvFrame env timeout l).1 = .returned none) ∧
      ∀ (k : PacketType) (p : k.Pkt), f = k.encode p → k.decode (xorBytes f e) = none := by
  have hinvalid := not_validFrame_xor hf hlen he
  constructor
  · intro env l timeout harrives
    have hcheck : checkDatagram (xorBytes f e) = none := by
      rw [Option.eq_none_iff_forall_ne_some]
      exact fun frame h => hinvalid (checkDatagram_eq_some_iff.mp h).2
    rw [udpRecvFrame, harrives]
    split_ifs with htimeout
    · rfl
    · simp only [hcheck]
  · rintro k p rfl
    have hxor : (xorBytes (k.encode p) e).length = kFrameOverhead + k.payloadSize := by
      obtain ⟨payload, hsize, -, hencode⟩ := encode_eq_encodeFrame p
      rw [xorBytes, List.length_zipWith, hlen, min_self, hencode, length_encodeFrame, hsize]
    rw [← Option.not_isSome_iff_eq_none]
    exact fun h => hinvalid (validFrame_of_isSome_decode hxor h)

theorem flipped_length_bit_detected :
    decodeCmd (xorBytes (encodeCmd {}) ([0, 0, 0, 1] ++ List.replicate 55 0)) = none :=
  (transmission_errors_detected (validFrame_encode (k := .cmd) {})
    (by rw [PacketType.encode, length_encodeCmd]; rfl)
    ⟨⟨1, by decide⟩, .inl (by decide +kernel)⟩).2 .cmd {} rfl

end RovSdk.TransmissionErrors
