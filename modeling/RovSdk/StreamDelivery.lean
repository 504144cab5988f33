import RovSdk.GreedySelection
import RovSdk.PacketRoundtrip

namespace RovSdk.StreamDelivery

open RovSdk.ListSlices
open RovSdk.GreedyScan
open RovSdk.ProtocolBytes
open RovSdk.FrameFormat
open RovSdk.FrameRecognizer
open RovSdk.StreamParser
open RovSdk.ParserSessions
open RovSdk.GreedySelection
open RovSdk.Packets
open RovSdk.PacketRoundtrip

/-- Noise in which no frame header starts. -/
def NoStart (g : List UInt8) : Prop := ¬[kStx0, kStx1, kProtocolVersion] <:+: g

instance (g : List UInt8) : Decidable (NoStart g) := inferInstanceAs (Decidable (¬_))

/-- Leading noise, then each packet's frame with the noise that follows it. -/
def stream (g : List UInt8) : List (Packet × List UInt8) → List UInt8
  | [] => g
  | (p, g') :: rest => g ++ (p.encode ++ stream g' rest)

/-- The packets of a stream that starts at offset `c`, each with the offset of the
last byte of its frame. -/
def deliveries (c : Nat) (g : List UInt8) :
    List (Packet × List UInt8) → List (Nat × Packet)
  | [] => []
  | (p, g') :: rest =>
      (c + g.length + p.encode.length - 1, p) ::
        deliveries (c + g.length + p.encode.length) g' rest

def feedAndDrain (p : FrameParser) : List (List UInt8) → List (List (List UInt8))
  | [] => []
  | chunk :: chunks =>
      let r := (p.feed chunk).drain
      r.1 :: feedAndDrain r.2 chunks

/-- The packets that complete in each chunk, when `c` bytes came before the first. -/
def arrivals (c : Nat) (ds : List (Nat × Packet)) : List (List UInt8) → List (List Packet)
  | [] => []
  | chunk :: chunks =>
      (ds.filter fun d => c ≤ d.1 ∧ d.1 < c + chunk.length).map Prod.snd ::
        arrivals (c + chunk.length) ds chunks

def decodeByType (frame : List UInt8) : Option Packet :=
  if getU8 frame 4 = kTypeCmd then (decodeCmd frame).map fun p => ⟨.cmd, p⟩
  else if getU8 frame 4 = kTypeTele then (decodeTele frame).map fun q => ⟨.tele, q⟩
  else none

theorem decodeByType_of_type {k : PacketType} {frame : List UInt8}
    (h : getU8 frame 4 = k.type) :
    decodeByType frame = (k.decode frame).map fun p => ⟨k, p⟩ := by
  cases k with
  | cmd => exact if_pos h
  | tele =>
      have hcmd : getU8 frame 4 ≠ kTypeCmd := by
        rw [h]
        decide
      exact (if_neg hcmd).trans (if_pos h)

theorem decodeByType_encode (p : Packet) : decodeByType p.encode = some p := by
  obtain ⟨k, p⟩ := p
  obtain ⟨payload, -, -, hencode⟩ := encode_eq_encodeFrame p
  have htype : getU8 (k.encode p) 4 = k.type := by
    rw [hencode, ← List.append_nil (encodeFrame payload k.type)]
    exact getU8_encodeFrame_append_type payload k.type []
  rw [Packet.encode, decodeByType_of_type htype, decode_encode]
  rfl

theorem packet_encode_eq (p : Packet) : ∃ payload type, payload.length ≤ 255 ∧
    p.encode = encodeFrame payload type :=
  validFrame_encode p.2

theorem length_packet_encode (p : Packet) : kFrameOverhead ≤ p.encode.length := by
  obtain ⟨payload, type, -, hencode⟩ := packet_encode_eq p
  rw [hencode, length_encodeFrame]
  omega

theorem frameVerdict_packet_encode_append (p : Packet) (t : List UInt8) :
    frameVerdict (p.encode ++ t) = .accept p.encode.length := by
  obtain ⟨payload, type, hle, hencode⟩ := packet_encode_eq p
  rw [hencode]
  exact frameVerdict_encodeFrame_append hle type t

theorem frameVerdict_take_packet_encode (p : Packet) {m : Nat} (hm : m < p.encode.length) :
    frameVerdict (p.encode.take m) = .wait := by
  have hv := frameVerdict_packet_encode_append p []
  rw [List.append_nil] at hv
  exact verdict_take_of_accept (R := frames) hv hm

theorem head?_packet_encode (p : Packet) : p.encode.head? = some kStx0 := by
  obtain ⟨payload, type, -, hencode⟩ := packet_encode_eq p
  rw [hencode, encodeFrame_eq, List.head?_cons]

theorem not_candidate_of_noStart {g : List UInt8} (hg : NoStart g) (i : Nat) :
    ¬Candidate g i := by
  intro hcand
  refine hg ⟨g.take i, g.drop (i + 3), ?_⟩
  rw [← hcand, slice, List.append_assoc, ← List.drop_drop, List.take_append_drop,
    List.take_append_drop]

/-- No header starts in noise, the bytes of the next frame included: its first byte
is none that a header has in second or third place. -/
theorem not_candidate_of_lt_noise {g x : List UInt8} (hg : NoStart g)
    (hstx : x.head? = some kStx0) {i : Nat} (hi : i < g.length) :
    ¬Candidate (g ++ x) i := by
  obtain ⟨u, rfl⟩ := List.head?_eq_some_iff.mp hstx
  intro hcand
  by_cases hin : i + 3 ≤ g.length
  · rw [Candidate, slice_append_left hin] at hcand
    exact not_candidate_of_noStart hg i hcand
  · obtain ⟨-, h1, h2⟩ := (candidate_iff hcand.length_le).mp hcand
    have hstx : getU8 (g ++ kStx0 :: u) g.length = kStx0 := by
      simp [getU8]
    rcases (by omega : i + 1 = g.length ∨ i + 2 = g.length) with h | h
    · rw [h, hstx] at h1
      exact absurd h1 (by decide)
    · rw [h, hstx] at h2
      exact absurd h2 (by decide)

/-- A scan passes noise as soon as the header behind it is complete. -/
theorem advance_noise {g x : List UInt8} (hg : NoStart g) (hx : 3 ≤ x.length)
    (hstx : x.head? = some kStx0) (c : Nat) :
    Advance frames c (g ++ x) [] (c + g.length) x := by
  obtain ⟨u, rfl⟩ := List.head?_eq_some_iff.mp hstx
  refine advance_of_reject_prefix c fun k hk => ?_
  rw [← List.drop_append_of_le_length hk.le]
  refine frameVerdict_of_not_candidate ?_ (not_candidate_of_lt_noise hg hstx hk)
  rw [List.length_append]
  omega

theorem bounds_of_mem_deliveries {items : List (Packet × List UInt8)} {c : Nat}
    {g : List UInt8} {d : Nat × Packet} (hd : d ∈ deliveries c g items) :
    c < d.1 ∧ d.1 < c + (stream g items).length := by
  induction items generalizing c g with
  | nil => simp [deliveries] at hd
  | cons item rest ih =>
      obtain ⟨p, g'⟩ := item
      have hpos := length_packet_encode p
      have hk := kFrameOverhead_eq
      simp only [stream, List.length_append]
      rcases List.mem_cons.mp hd with rfl | htail
      · simp only
        omega
      · obtain ⟨hlt, hle⟩ := ih htail
        omega

theorem pairwise_deliveries (c : Nat) (g : List UInt8)
    (items : List (Packet × List UInt8)) :
    (deliveries c g items).Pairwise fun d d' => d.1 < d'.1 := by
  induction items generalizing c g with
  | nil => exact .nil
  | cons item rest ih =>
      obtain ⟨p, g'⟩ := item
      have hpos := length_packet_encode p
      have hk := kFrameOverhead_eq
      refine .cons (fun d hd => ?_) (ih _ _)
      have hlt := (bounds_of_mem_deliveries hd).1
      simp only
      omega

theorem map_deliveries (c : Nat) (g : List UInt8) (items : List (Packet × List UInt8)) :
    (deliveries c g items).map Prod.snd = items.map Prod.fst := by
  induction items generalizing c g with
  | nil => rfl
  | cons item rest ih => simp only [deliveries, List.map_cons, ih]

theorem scan_eq_nil_of_not_candidate {s : List UInt8} (h : ∀ i, ¬Candidate s i) (c : Nat) :
    scan frames c s = [] :=
  scan_eq_nil_of_no_accept fun i _ hv => h i (candidate_of_frameVerdict_accept hv)

theorem scan_take_noise_append {g : List UInt8} (hg : NoStart g) (p : Packet)
    (t : List UInt8) {m : Nat} (hm : m < g.length + p.encode.length) (c : Nat) :
    scan frames c ((g ++ (p.encode ++ t)).take m) = [] := by
  have hpos := length_packet_encode p
  have hk := kFrameOverhead_eq
  have hstx : (p.encode ++ t).head? = some kStx0 := by
    rw [List.head?_append, head?_packet_encode]
    rfl
  by_cases hheader : m < g.length + 3
  · refine scan_eq_nil_of_not_candidate (fun i hcand => ?_) c
    have hlt := hcand.length_le
    rw [List.length_take] at hlt
    have hfull := hcand.append ((g ++ (p.encode ++ t)).drop m)
    rw [List.take_append_drop] at hfull
    exact not_candidate_of_lt_noise hg hstx (by omega) hfull
  · have htake : (g ++ (p.encode ++ t)).take m = g ++ p.encode.take (m - g.length) := by
      rw [List.take_append, List.take_of_length_le (by omega),
        List.take_append_of_le_length (by omega)]
    have hadv := advance_noise (x := p.encode.take (m - g.length)) hg
      (by rw [List.length_take]; omega)
      (by rw [List.head?_take, if_neg (by omega), head?_packet_encode]) c
    have hwait := frameVerdict_take_packet_encode p (m := m - g.length) (by omega)
    rw [htake, hadv.scan_eq_nil_of_wait hwait]

theorem scan_noise_append {g : List UInt8} (hg : NoStart g) (p : Packet) (t : List UInt8)
    (c : Nat) :
    scan frames c (g ++ (p.encode ++ t)) =
      (c + g.length, p.encode) :: scan frames (c + g.length + p.encode.length) t := by
  have hpos := length_packet_encode p
  have hk := kFrameOverhead_eq
  have hadv := advance_noise (x := p.encode ++ t) hg
    (by rw [List.length_append]; omega)
    (by rw [List.head?_append, head?_packet_encode]; rfl) c
  rw [hadv.scan_eq, List.nil_append,
    scan_of_accept (R := frames) (frameVerdict_packet_encode_append p t), List.take_left,
    List.drop_left]

/-- Scanning a prefix of the stream finds the frames whose last byte it holds. -/
theorem scan_take_stream {items : List (Packet × List UInt8)}
    (hitems : ∀ item ∈ items, NoStart item.2) {g : List UInt8} (hg : NoStart g)
    (c m : Nat) :
    (scan frames c ((stream g items).take m)).map Prod.snd =
      ((deliveries c g items).filter fun d => d.1 < c + m).map fun d => d.2.encode := by
  induction items generalizing c g m with
  | nil =>
      have hnone : ∀ i, ¬Candidate (g.take m) i := fun i hcand =>
        not_candidate_of_noStart hg i (by simpa using hcand.append (g.drop m))
      simp only [stream, deliveries, scan_eq_nil_of_not_candidate hnone]
      rfl
  | cons item rest ih =>
      obtain ⟨p, g'⟩ := item
      have hpos := length_packet_encode p
      have hk := kFrameOverhead_eq
      simp only [stream, deliveries]
      by_cases hm : m < g.length + p.encode.length
      · -- the first frame is not complete, so neither is any later one
        have hlate : ∀ d ∈ deliveries (c + g.length + p.encode.length) g' rest,
            c + m < d.1 := by
          intro d hd
          have hlt := (bounds_of_mem_deliveries hd).1
          omega
        rw [scan_take_noise_append hg p _ hm, List.filter_cons_of_neg (by simp; omega),
          List.filter_eq_nil_iff.mpr fun d hd => by simpa using (hlate d hd).le]
        rfl
      · obtain ⟨n, rfl⟩ : ∃ n, m = g.length + (p.encode.length + n) :=
          ⟨m - (g.length + p.encode.length), by omega⟩
        have htail := ih (fun item hitem => hitems item (List.mem_cons_of_mem _ hitem))
          (hitems (p, g') List.mem_cons_self) (c + g.length + p.encode.length) n
        rw [List.take_length_add_append, List.take_length_add_append,
          scan_noise_append hg p, List.map_cons, htail,
          List.filter_cons_of_pos (by simp; omega), List.map_cons, Nat.add_assoc _ _ n,
          Nat.add_assoc c]

def Drained (fed : List UInt8) (p : FrameParser) : Prop :=
  ∃ c, Advance frames 0 fed (scan frames 0 fed) c p.buf

theorem Drained.drain {fed : List UInt8} {p : FrameParser} (h : Drained fed p)
    (chunk : List UInt8) :
    Drained (fed ++ chunk) (p.feed chunk).drain.2 ∧
      (scan frames 0 (fed ++ chunk)).map Prod.snd =
        (scan frames 0 fed).map Prod.snd ++ (p.feed chunk).drain.1 := by
  obtain ⟨c, hadv⟩ := h
  obtain ⟨out, c', hrest, hmap, hscan⟩ := scan_eq_of_drains (drains_drain (p.feed chunk)) c
  have hmore : Advance frames 0 (fed ++ chunk) (scan frames 0 fed) c (p.feed chunk).buf :=
    hadv.append chunk
  have htotal : scan frames 0 (fed ++ chunk) = scan frames 0 fed ++ out := by
    rw [hmore.scan_eq, hscan]
  refine ⟨⟨c', ?_⟩, by rw [htotal, List.map_append, hmap]⟩
  rw [htotal]
  exact hmore.trans hrest

/-- In a list sorted by offset, the entries before `b` are those before `a` and then
those between. -/
theorem filter_lt_eq_append {ds : List (Nat × Packet)}
    (hsorted : ds.Pairwise fun d d' => d.1 < d'.1) {a b : Nat} (hab : a ≤ b) :
    (ds.filter fun d => d.1 < b) =
      (ds.filter fun d => d.1 < a) ++ ds.filter fun d => a ≤ d.1 ∧ d.1 < b := by
  induction hsorted with
  | nil => rfl
  | @cons d ds hd _ ih =>
      by_cases hlt : d.1 < a
      · rw [List.filter_cons_of_pos (by simp; omega), List.filter_cons_of_pos (by simpa),
          List.filter_cons_of_neg (by simp; omega), ih, List.cons_append]
      · have hnone : ((d :: ds).filter fun d => d.1 < a) = [] := by
          rw [List.filter_eq_nil_iff]
          intro d' hd'
          have hle : d.1 ≤ d'.1 := by
            rcases List.mem_cons.mp hd' with rfl | htail
            · exact le_rfl
            · exact (hd d' htail).le
          simp only [decide_eq_true_eq]
          omega
        rw [hnone, List.nil_append]
        refine List.filter_congr fun d' hd' => ?_
        have hle : a ≤ d'.1 := by
          rcases List.mem_cons.mp hd' with rfl | htail
          · omega
          · have hlt' := hd d' htail
            omega
        simp [hle]

theorem feedAndDrain_eq_arrivals {ds : List (Nat × Packet)} {chunks : List (List UInt8)}
    {fed : List UInt8} {p : FrameParser}
    (hsorted : ds.Pairwise fun d d' => d.1 < d'.1)
    (hscan : ∀ m, (scan frames 0 ((fed ++ chunks.flatten).take m)).map Prod.snd =
      (ds.filter fun d => d.1 < m).map fun d => d.2.encode)
    (h : Drained fed p) :
    feedAndDrain p chunks =
      (arrivals fed.length ds chunks).map fun packets => packets.map Packet.encode := by
  induction chunks generalizing fed p with
  | nil => rfl
  | cons chunk chunks ih =>
      obtain ⟨hdrained, hsplit⟩ := h.drain chunk
      have hbefore := hscan fed.length
      have hafter := hscan (fed ++ chunk).length
      rw [List.take_left] at hbefore
      rw [List.flatten_cons, ← List.append_assoc, List.take_left, hsplit, hbefore,
        filter_lt_eq_append hsorted (by simp : fed.length ≤ (fed ++ chunk).length),
        List.map_append, List.append_cancel_left_eq] at hafter
      have htail := ih (by simpa [List.append_assoc] using hscan) hdrained
      rw [List.length_append] at htail hafter
      rw [feedAndDrain, arrivals, List.map_cons, ← htail, hafter, List.map_map]
      rfl

theorem flatten_feedAndDrain {fed : List UInt8} {p : FrameParser}
    (chunks : List (List UInt8)) (h : Drained fed p) :
    (scan frames 0 (fed ++ chunks.flatten)).map Prod.snd =
      (scan frames 0 fed).map Prod.snd ++ (feedAndDrain p chunks).flatten := by
  induction chunks generalizing fed p with
  | nil => simp [feedAndDrain]
  | cons chunk chunks ih =>
      obtain ⟨hdrained, hsplit⟩ := h.drain chunk
      rw [List.flatten_cons, ← List.append_assoc, ih hdrained, hsplit, feedAndDrain,
        List.flatten_cons, List.append_assoc]

/-- However the stream is cut, the drains return the frames of the packets in order and
nothing else, each in the drain after the chunk that completes it, and decoding by type
byte gives the packets back. -/
theorem noisy_stream_delivered {g : List UInt8} {items : List (Packet × List UInt8)}
    {chunks : List (List UInt8)} (hg : NoStart g) (hitems : ∀ item ∈ items, NoStart item.2)
    (hcut : chunks.flatten = stream g items) :
    (feedAndDrain {} chunks).flatten = items.map (fun item => item.1.encode) ∧
      feedAndDrain {} chunks = (arrivals 0 (deliveries 0 g items) chunks).map
        (fun packets => packets.map Packet.encode) ∧
      ∀ item ∈ items, decodeByType item.1.encode = some item.1 := by
  have hscan := fun m => scan_take_stream hitems hg 0 m
  have hstart : Drained [] {} := ⟨0, by rw [scan_of_wait frames.verdict_nil]; exact .refl _ _⟩
  refine ⟨?_, ?_, fun item _ => decodeByType_encode item.1⟩
  · have hflatten := flatten_feedAndDrain chunks hstart
    have hall := hscan (stream g items).length
    rw [List.nil_append, hcut, scan_of_wait frames.verdict_nil, List.map_nil,
      List.nil_append] at hflatten
    rw [List.take_length, List.filter_eq_self.mpr fun d hd => by
      simpa using (bounds_of_mem_deliveries hd).2] at hall
    have hmap := congrArg (List.map Packet.encode) (map_deliveries 0 g items)
    rw [List.map_map, List.map_map] at hmap
    rw [← hflatten, hall]
    exact hmap
  · exact feedAndDrain_eq_arrivals (pairwise_deliveries 0 g items)
      (by simpa [hcut] using hscan) hstart

theorem noisy_command_delivered :
    (feedAndDrain {} [[kStx0, kStx1] ++ (encodeCmd {}).take 9,
        (encodeCmd {}).drop 9 ++ [kStx0]]).flatten = [encodeCmd {}] :=
  (@noisy_stream_delivered [kStx0, kStx1] [(⟨.cmd, {}⟩, [kStx0])] _ (by decide)
    (List.forall_mem_singleton.mpr (by decide))
    (by simp [stream, Packet.encode, PacketType.encode, ← List.append_assoc])).1

end RovSdk.StreamDelivery
