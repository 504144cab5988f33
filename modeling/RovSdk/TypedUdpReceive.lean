import RovSdk.Deadlines
import RovSdk.LinkConservation
import RovSdk.ValidatorAgreement

namespace RovSdk.TypedUdpReceive

open RovSdk.ProtocolBytes
open RovSdk.FrameFormat
open RovSdk.Packets
open RovSdk.PacketRoundtrip
open RovSdk.FrameLink
open RovSdk.Deadlines
open RovSdk.LinkConservation
open RovSdk.ValidatorAgreement

instance (d : List UInt8) : Decidable (ValidFrame d) :=
  decidable_of_iff (checkDatagram d = some d) (by simp [checkDatagram_eq_some_iff])

def Accepts (k : PacketType) (d : List UInt8) : Prop :=
  ValidFrame d ∧ (k.decode d).isSome

/-- The datagram is a valid frame of another type or with an empty payload. -/
def Passes (k : PacketType) (d : List UInt8) : Prop := ValidFrame d ∧ PassedOver k d

def firstAccepted (k : PacketType) (ds : List (List UInt8)) : Option k.Pkt :=
  ds.findSome? fun d => if ValidFrame d then k.decode d else none

theorem firstAccepted_cons_of_accepts {k : PacketType} {d : List UInt8} (h : Accepts k d)
    (ds : List (List UInt8)) : firstAccepted k (d :: ds) = k.decode d := by
  obtain ⟨p, hp⟩ := Option.isSome_iff_exists.mp h.2
  rw [firstAccepted, List.findSome?_cons, if_pos h.1, hp]

theorem firstAccepted_cons_of_not_accepts {k : PacketType} {d : List UInt8}
    (h : ¬Accepts k d) (ds : List (List UInt8)) :
    firstAccepted k (d :: ds) = firstAccepted k ds := by
  have hnone : (if ValidFrame d then k.decode d else none) = none := by
    by_cases hvalid : ValidFrame d
    · rw [if_pos hvalid]
      simpa [Accepts, hvalid] using h
    · rw [if_neg hvalid]
  rw [firstAccepted, List.findSome?_cons, hnone]
  rfl

theorem firstAccepted_eq_none_iff {k : PacketType} {ds : List (List UInt8)} :
    firstAccepted k ds = none ↔ ∀ d ∈ ds, ¬Accepts k d := by
  induction ds with
  | nil => simp [firstAccepted]
  | cons d ds ih =>
      rw [List.forall_mem_cons]
      by_cases h : Accepts k d
      · rw [firstAccepted_cons_of_accepts h, ← Option.not_isSome_iff_eq_none]
        simp [h, h.2]
      · rw [firstAccepted_cons_of_not_accepts h, ih]
        simp [h]

theorem not_passes_of_accepts {k : PacketType} {d : List UInt8} (h : Accepts k d) :
    ¬Passes k d := by
  obtain ⟨htype, hsize⟩ := (isSome_decode_iff h.1).mp h.2
  obtain ⟨n, hholds, hlen⟩ := validFrame_iff.mp h.1
  have hpos : 0 < k.payloadSize := by cases k <;> decide
  have hn := hholds.len
  rintro ⟨-, hother | hempty⟩
  · exact hother htype
  · omega

theorem recvFrameAsLoop_udp_turn {env : Env} {l : Link} {deadline : Int64}
    {d : List UInt8} (inner : Nat) (k : PacketType) (fuel : Nat)
    (hleft : TimeLeft deadline (env.now l.ticks))
    (harrives : env.recvBytes l.timeouts.length = some d) :
    recvFrameAsLoop (LinkClass.udp.recvFrame env inner) env k deadline (fuel + 1) l =
      match checkDatagram d with
      | none =>
          (.returned none, l.tick.ask (remainingMillis deadline (env.now l.ticks)))
      | some frame =>
          if frame.length ≥ kFrameOverhead + 1 ∧ getU8 frame 4 = k.type then
            (.returned (k.decode frame),
              l.tick.ask (remainingMillis deadline (env.now l.ticks)))
          else
            recvFrameAsLoop (LinkClass.udp.recvFrame env inner) env k deadline fuel
              (l.tick.ask (remainingMillis deadline (env.now l.ticks))) := by
  have hremaining : ¬remainingMillis deadline (env.now l.ticks) ≤ 0 :=
    Int64.not_le.mpr hleft.pos
  have harrives' : env.recvBytes l.tick.timeouts.length = some d := harrives
  rw [recvFrameAsLoop_of_timeLeft _ _ _ hleft]
  simp only [LinkClass.recvFrame, udpRecvFrame, if_neg hremaining, harrives']
  cases checkDatagram d <;> rfl

theorem recvFrameAsLoop_udp_of_none {env : Env} {l : Link} {deadline : Int64}
    (inner : Nat) (k : PacketType) (fuel : Nat)
    (hnone : env.recvBytes l.timeouts.length = none) :
    (recvFrameAsLoop (LinkClass.udp.recvFrame env inner) env k deadline (fuel + 1) l).1 =
      .returned none := by
  have hnone' : env.recvBytes l.tick.timeouts.length = none := hnone
  by_cases hleft : TimeLeft deadline (env.now l.ticks)
  · have hremaining : ¬remainingMillis deadline (env.now l.ticks) ≤ 0 :=
      Int64.not_le.mpr hleft.pos
    rw [recvFrameAsLoop_of_timeLeft _ _ _ hleft]
    simp only [LinkClass.recvFrame, udpRecvFrame, if_neg hremaining, hnone']
  · rw [recvFrameAsLoop_of_not_timeLeft _ k fuel hleft]

theorem match_of_accepts {k : PacketType} {frame : List UInt8} (h : Accepts k frame) :
    frame.length ≥ kFrameOverhead + 1 ∧ getU8 frame 4 = k.type := by
  by_contra hmismatch
  exact not_passes_of_accepts h ⟨h.1, (passedOver_iff h.1).mpr hmismatch⟩

/-- A valid frame that is neither passes the test of the loop and does not decode. -/
theorem match_of_neither {k : PacketType} {frame : List UInt8} (hvalid : ValidFrame frame)
    (haccepts : ¬Accepts k frame) (hpasses : ¬Passes k frame) :
    (frame.length ≥ kFrameOverhead + 1 ∧ getU8 frame 4 = k.type) ∧ k.decode frame = none := by
  constructor
  · by_contra hmismatch
    exact hpasses ⟨hvalid, (passedOver_iff hvalid).mpr hmismatch⟩
  · rw [← Option.not_isSome_iff_eq_none]
    exact fun h => haccepts ⟨hvalid, h⟩

theorem recvFrameAsLoop_udp_of_neither {env : Env} {l : Link} {deadline : Int64}
    {d : List UInt8} (inner : Nat) {k : PacketType} (fuel : Nat)
    (hleft : TimeLeft deadline (env.now l.ticks))
    (harrives : env.recvBytes l.timeouts.length = some d)
    (haccepts : ¬Accepts k d) (hpasses : ¬Passes k d) :
    (recvFrameAsLoop (LinkClass.udp.recvFrame env inner) env k deadline (fuel + 1) l).1 =
      .returned none := by
  rw [recvFrameAsLoop_udp_turn inner k fuel hleft harrives]
  by_cases hvalid : ValidFrame d
  · obtain ⟨hmatch, hnone⟩ := match_of_neither hvalid haccepts hpasses
    rw [checkDatagram_eq_some_iff.mpr ⟨rfl, hvalid⟩]
    simp only
    rw [if_pos hmatch, hnone]
  · have hcheck : checkDatagram d = none := by
      rw [Option.eq_none_iff_forall_ne_some]
      exact fun frame h => hvalid (checkDatagram_eq_some_iff.mp h).2
    rw [hcheck]

theorem recvFrameAsLoop_udp_of_accepts {env : Env} {l : Link} {deadline : Int64}
    {d : List UInt8} (inner : Nat) {k : PacketType} (fuel : Nat)
    (hleft : TimeLeft deadline (env.now l.ticks))
    (harrives : env.recvBytes l.timeouts.length = some d) (h : Accepts k d) :
    (recvFrameAsLoop (LinkClass.udp.recvFrame env inner) env k deadline (fuel + 1) l).1 =
      .returned (k.decode d) := by
  rw [recvFrameAsLoop_udp_turn inner k fuel hleft harrives,
    checkDatagram_eq_some_iff.mpr ⟨rfl, h.1⟩]
  simp only
  rw [if_pos (match_of_accepts h)]

theorem recvFrameAsLoop_udp_of_passes {env : Env} {l : Link} {deadline : Int64}
    {d : List UInt8} (inner : Nat) {k : PacketType} (fuel : Nat)
    (hleft : TimeLeft deadline (env.now l.ticks))
    (harrives : env.recvBytes l.timeouts.length = some d) (h : Passes k d) :
    recvFrameAsLoop (LinkClass.udp.recvFrame env inner) env k deadline (fuel + 1) l =
      recvFrameAsLoop (LinkClass.udp.recvFrame env inner) env k deadline fuel
        (l.tick.ask (remainingMillis deadline (env.now l.ticks))) := by
  rw [recvFrameAsLoop_udp_turn inner k fuel hleft harrives,
    checkDatagram_eq_some_iff.mpr ⟨rfl, h.1⟩]
  simp only
  rw [if_neg ((passedOver_iff h.1).mp h.2)]

/-- The loop comes to an acceptable datagram: it has time left at each reading of the
clock from number `i` on, and passes over every datagram before. -/
inductive Reached (env : Env) (k : PacketType) (deadline : Int64) :
    Nat → List (List UInt8) → Prop
  | here {i : Nat} {d : List UInt8} {ds : List (List UInt8)} :
      TimeLeft deadline (env.now i) → Accepts k d → Reached env k deadline i (d :: ds)
  | later {i : Nat} {d : List UInt8} {ds : List (List UInt8)} :
      TimeLeft deadline (env.now i) → Passes k d → Reached env k deadline (i + 1) ds →
      Reached env k deadline i (d :: ds)

theorem reached_cons_iff {env : Env} {k : PacketType} {deadline : Int64} {i : Nat}
    {d : List UInt8} {ds : List (List UInt8)} :
    Reached env k deadline i (d :: ds) ↔ TimeLeft deadline (env.now i) ∧
      (Accepts k d ∨ Passes k d ∧ Reached env k deadline (i + 1) ds) := by
  constructor
  · rintro (⟨hleft, haccepts⟩ | ⟨hleft, hpasses, hrest⟩)
    · exact ⟨hleft, .inl haccepts⟩
    · exact ⟨hleft, .inr ⟨hpasses, hrest⟩⟩
  · rintro ⟨hleft, haccepts | ⟨hpasses, hrest⟩⟩
    · exact .here hleft haccepts
    · exact .later hleft hpasses hrest

theorem recvFrameAsLoop_udp_eq_iff {env : Env} {k : PacketType} {deadline : Int64}
    {ds : List (List UInt8)} {l : Link} (inner : Nat) {fuel : Nat}
    (hfuel : ds.length < fuel)
    (harrives : ∀ j d, ds[j]? = some d → env.recvBytes (l.timeouts.length + j) = some d)
    (hends : (∃ d ∈ ds, Accepts k d) ∨
      env.recvBytes (l.timeouts.length + ds.length) = none ∨
        ¬TimeLeft deadline (env.now (l.ticks + ds.length))) :
    (recvFrameAsLoop (LinkClass.udp.recvFrame env inner) env k deadline fuel l).1 =
        .returned (firstAccepted k ds) ↔
      firstAccepted k ds = none ∨ Reached env k deadline l.ticks ds := by
  obtain ⟨fuel, rfl⟩ : ∃ n, fuel = n + 1 := ⟨fuel - 1, by omega⟩
  induction ds generalizing l fuel with
  | nil =>
      refine iff_of_true ?_ (.inl rfl)
      rcases hends with ⟨d, hd, -⟩ | hnone | hleft
      · simp at hd
      · exact recvFrameAsLoop_udp_of_none inner k fuel hnone
      · rw [recvFrameAsLoop_of_not_timeLeft _ k fuel hleft]
        rfl
  | cons d ds ih =>
      have harrives₀ : env.recvBytes l.timeouts.length = some d := harrives 0 d rfl
      rw [reached_cons_iff]
      by_cases hleft : TimeLeft deadline (env.now l.ticks)
      · by_cases haccepts : Accepts k d
        · rw [recvFrameAsLoop_udp_of_accepts inner fuel hleft harrives₀ haccepts,
            firstAccepted_cons_of_accepts haccepts]
          exact iff_of_true rfl (.inr ⟨hleft, .inl haccepts⟩)
        rw [firstAccepted_cons_of_not_accepts haccepts]
        by_cases hpasses : Passes k d
        · obtain ⟨fuel, rfl⟩ : ∃ n, fuel = n + 1 := ⟨fuel - 1, by simp at hfuel; omega⟩
          have htail := ih (l := l.tick.ask (remainingMillis deadline (env.now l.ticks)))
            (fun j d' hd' => by
              simpa [Link.tick, Link.ask, Nat.add_assoc, Nat.add_comm 1] using
                harrives (j + 1) d' hd')
            (by simpa [Link.tick, Link.ask, Nat.add_assoc, Nat.add_comm 1,
              haccepts] using hends) fuel (by simpa using hfuel)
          rw [recvFrameAsLoop_udp_of_passes inner _ hleft harrives₀ hpasses, htail]
          simp only [hleft, haccepts, hpasses, true_and, false_or]
          rfl
        · rw [recvFrameAsLoop_udp_of_neither inner fuel hleft harrives₀ haccepts hpasses]
          simp [haccepts, hpasses, eq_comm]
      · rw [recvFrameAsLoop_of_not_timeLeft _ k fuel hleft]
        simp [hleft, eq_comm]

/-- The datagrams delivered while at least a whole millisecond of the timeout remains:
one for each turn of the loop, up to one that is acceptable or until the channel has none
or the time is up. -/
structure DeliveredInTime (env : Env) (l : Link) (timeout : Int64) (k : PacketType)
    (ds : List (List UInt8)) : Prop where
  arrives : ∀ j d, ds[j]? = some d → env.recvBytes (l.timeouts.length + j) = some d
  inTime : ∀ j < ds.length,
    InTime (env.now l.ticks) timeout (env.now (l.ticks + 1 + j))
  ends : (∃ d ∈ ds, Accepts k d) ∨
    env.recvBytes (l.timeouts.length + ds.length) = none ∨
      ¬InTime (env.now l.ticks) timeout (env.now (l.ticks + 1 + ds.length))

/-- With time left at every reading, what counts is which datagrams come first. -/
theorem reached_iff_exists {env : Env} {k : PacketType} {deadline : Int64} {i : Nat}
    {ds : List (List UInt8)}
    (htime : ∀ j < ds.length, TimeLeft deadline (env.now (i + j))) :
    Reached env k deadline i ds ↔ ∃ before d after, ds = before ++ d :: after ∧
      (∀ e ∈ before, Passes k e) ∧ Accepts k d := by
  constructor
  · intro h
    clear htime
    induction h with
    | here _ haccepts => exact ⟨[], _, _, rfl, by simp, haccepts⟩
    | @later _ e _ _ hpasses _ ih =>
        obtain ⟨before, d, after, rfl, hbefore, haccepts⟩ := ih
        exact ⟨e :: before, d, after, rfl, List.forall_mem_cons.mpr ⟨hpasses, hbefore⟩,
          haccepts⟩
  · rintro ⟨before, d, after, rfl, hbefore, haccepts⟩
    induction before generalizing i with
    | nil => exact .here (by simpa using htime 0 (by simp)) haccepts
    | cons e before ih =>
        obtain ⟨hpasses, hrest⟩ := List.forall_mem_cons.mp hbefore
        refine .later (by simpa using htime 0 (by simp)) hpasses (ih (fun j hj => ?_) hrest)
        have hnext := htime (j + 1) (by simpa using hj)
        rwa [Nat.add_comm j, ← Nat.add_assoc] at hnext

/-- The same for what is delivered in time before a deadline that fits in 64 bits. -/
theorem DeliveredInTime.reached_iff {env : Env} {l : Link} {timeout : Int64}
    {k : PacketType} {ds : List (List UInt8)} (h : DeliveredInTime env l timeout k ds)
    (hclock : ∀ i, 0 ≤ (env.now i).toInt)
    (hfits : (env.now l.ticks).toInt + timeout.toInt * 1000000 < 2 ^ 63) :
    Reached env k (deadlineAfter (env.now l.ticks) timeout) (l.ticks + 1) ds ↔
      ∃ before d after, ds = before ++ d :: after ∧ (∀ e ∈ before, Passes k e) ∧
        Accepts k d :=
  reached_iff_exists fun j hj => timeLeft_of_inTime (hclock _) hfits (h.inTime j hj)

theorem recvFrameAs_udp_eq_iff {env : Env} {k : PacketType} {timeout : Int64}
    {l : Link} {ds : List (List UInt8)}
    (hclock : env.now l.ticks ≤ env.now (l.ticks + 1))
    (hds : DeliveredInTime env l timeout k ds) {fuel : Nat} (hfuel : ds.length < fuel) :
    (recvFrameAs env fuel .udp k timeout l).1 = .returned (firstAccepted k ds) ↔
      (∀ d ∈ ds, ¬Accepts k d) ∨
        Reached env k (deadlineAfter (env.now l.ticks) timeout) (l.ticks + 1) ds := by
  rw [recvFrameAs]
  split_ifs with htimeout
  · -- no time at all: nothing was delivered in time
    have hnil : ds = [] := by
      by_contra hne
      have hleft := hds.inTime 0 (List.length_pos_iff.mpr hne)
      rw [InTime] at hleft
      rw [Int64.le_iff_toInt_le] at hclock htimeout
      rw [Int64.toInt_zero] at htimeout
      simp only [Nat.add_zero] at hleft
      omega
    subst hnil
    exact iff_of_true rfl (.inl (by simp))
  · have hpos : 0 < timeout := Int64.not_le.mp htimeout
    rw [← firstAccepted_eq_none_iff]
    refine recvFrameAsLoop_udp_eq_iff (l := l.tick) fuel hfuel hds.arrives ?_
    rcases hds.ends with haccepts | hnone | hlate
    · exact .inl haccepts
    · exact .inr (.inl hnone)
    · exact .inr (.inr fun hleft => hlate (inTime_of_timeLeft hpos hleft))

/-- A typed receive over UDP returns the first acceptable datagram delivered in time, or
nothing if there is none, exactly when there is none or the loop comes to it.  For a
deadline that fits in 64 bits it comes to it when each datagram before is passed over. -/
theorem recvFrameAs_udp_returns_first_iff {env : Env} {k : PacketType} {timeout : Int64}
    {l : Link} {ds : List (List UInt8)}
    (hclock : env.now l.ticks ≤ env.now (l.ticks + 1))
    (hds : DeliveredInTime env l timeout k ds) {fuel : Nat} (hfuel : ds.length < fuel) :
    ((recvFrameAs env fuel .udp k timeout l).1 = .returned (firstAccepted k ds) ↔
        (∀ d ∈ ds, ¬Accepts k d) ∨
          Reached env k (deadlineAfter (env.now l.ticks) timeout) (l.ticks + 1) ds) ∧
      ((∀ i, 0 ≤ (env.now i).toInt) →
        (env.now l.ticks).toInt + timeout.toInt * 1000000 < 2 ^ 63 →
        ((recvFrameAs env fuel .udp k timeout l).1 = .returned (firstAccepted k ds) ↔
          (∀ d ∈ ds, ¬Accepts k d) ∨ ∃ before d after, ds = before ++ d :: after ∧
            (∀ e ∈ before, Passes k e) ∧ Accepts k d)) := by
  have hfirst := recvFrameAs_udp_eq_iff hclock hds hfuel
  refine ⟨hfirst, fun hnonneg hfits => ?_⟩
  rw [hfirst, hds.reached_iff hnonneg hfits]

def delivering (ds : List (List UInt8)) : Env := ⟨fun _ => 0, fun j => ds[j]?⟩

theorem deliveredInTime_delivering (k : PacketType) (ds : List (List UInt8)) :
    DeliveredInTime (delivering ds) {} 1000 k ds where
  arrives _ _ hd := by simpa [delivering] using hd
  inTime _ _ := by simp only [delivering]; decide
  ends := .inr (.inl (by simp [delivering]))

theorem command_after_telemetry_returned :
    (recvFrameAs (delivering [encodeTele {}, encodeCmd {}]) 3 .udp .cmd 1000 {}).1 =
      .returned (firstAccepted .cmd [encodeTele {}, encodeCmd {}]) :=
  ((recvFrameAs_udp_returns_first_iff (l := {}) (by decide)
    (deliveredInTime_delivering .cmd _) (by decide)).2
      (fun _ => Int.le_refl 0) (by simp only [delivering]; decide)).mpr
        (.inr ⟨[encodeTele {}], encodeCmd {}, [], rfl,
          List.forall_mem_singleton.mpr
            ⟨validFrame_encode (k := .tele) {}, .inl (by decide)⟩,
          validFrame_encode (k := .cmd) {}, by decide +kernel⟩)

/-- A stray byte before the command ends the call with nothing. -/
theorem stray_datagram_ends_receive :
    DeliveredInTime (delivering [[0], encodeCmd {}]) {} 1000 .cmd [[0], encodeCmd {}] ∧
      firstAccepted .cmd [[0], encodeCmd {}] = some {} ∧
      ∀ fuel, 2 < fuel →
        (recvFrameAs (delivering [[0], encodeCmd {}]) fuel .udp .cmd 1000 {}).1 =
          .returned none := by
  have hstray : ¬ValidFrame [0] := by decide
  refine ⟨deliveredInTime_delivering .cmd _, by decide +kernel, fun fuel hfuel => ?_⟩
  obtain ⟨fuel, rfl⟩ : ∃ n, fuel = n + 1 := ⟨fuel - 1, by omega⟩
  rw [recvFrameAs, if_neg (by decide)]
  exact recvFrameAsLoop_udp_of_neither (d := [0]) _ fuel (by simp only [delivering]; decide)
    rfl (fun h => hstray h.1) (fun h => hstray h.1)

end RovSdk.TypedUdpReceive
