import RovSdk.FrameLayouts
import RovSdk.GoldenAgreement

namespace RovSdk.GoldenFrames

open RovSdk.Results
open RovSdk.ProtocolBytes
open RovSdk.FrameFormat
open RovSdk.PythonValues
open RovSdk.SchemaLayout
open RovSdk.SchemaValidator
open RovSdk.CodeGenerator
open RovSdk.FrameLayouts
open RovSdk.GoldenGenerator (packField buildPayload buildFrame caseFromInputs)
open RovSdk.GoldenAgreement

variable {py : Runtime} {f : LayoutField} {layout : List LayoutField} {inputs : PyVal}

/-- A value for an entry: `u8` values as integers below 256, `f32` values as floats, and
a list of them for an array. -/
inductive Fits (f : LayoutField) : PyVal → Prop
  | byte (htype : elemType f.type = some .u8) (hone : ¬f.count > 1) (b : UInt8) :
      Fits f (byteVal b)
  | bytes (htype : elemType f.type = some .u8) (hmany : f.count > 1) (bs : List UInt8)
      (hcount : f.count = bs.length) : Fits f (bytesVal bs)
  | float (htype : elemType f.type = some .f32) (hone : ¬f.count > 1) (bits : UInt32) :
      Fits f (.float bits)
  | floats (htype : elemType f.type = some .f32) (hmany : f.count > 1) (ws : List UInt32)
      (hcount : f.count = ws.length) : Fits f (floatsVal ws)

/-- Inputs with a fitting value for each entry. -/
def Matches (layout : List LayoutField) (inputs : PyVal) : Prop :=
  ∀ f ∈ layout, ∃ raw, inputs.getItem f.name = .ok raw ∧ Fits f raw

theorem type_of_elemType {type : PyVal} {t : ElemType} (h : elemType type = some t) :
    type = match t with
      | .u8 => .str "u8"
      | .f32 => .str "f32" := by
  rw [elemType] at h
  split_ifs at h with hu8 hf32
  · obtain rfl := Option.some.inj h
    exact eq_str_of_sameKey hu8
  · obtain rfl := Option.some.inj h
    exact eq_str_of_sameKey hf32

theorem elementSize_eq (hsized : Sized f) {t : ElemType} (h : elemType f.type = some t) :
    f.elementSize = t.size := by
  obtain ⟨t', htype, hsize⟩ := hsized.elemType
  obtain rfl := Option.some.inj (h.symm.trans htype)
  exact hsize

theorem exists_packField (py : Runtime) (hsized : Sized f) {raw : PyVal}
    (hraw : inputs.getItem f.name = .ok raw) (hfits : Fits f raw) :
    ∃ seg, packField py inputs f = .ok seg ∧ (seg.length : Int) = occupied f := by
  cases hfits with
  | byte htype hone b =>
      refine ⟨[b], packField_u8 py (type_of_elemType htype) hone hraw, ?_⟩
      rw [occupied, if_neg hone, elementSize_eq hsized htype]
      rfl
  | bytes htype hmany bs hcount =>
      refine ⟨bs, packField_u8s py (type_of_elemType htype) hcount (by omega) hraw, ?_⟩
      rw [occupied, if_pos hmany, elementSize_eq hsized htype, hcount]
      exact (Int.one_mul _).symm
  | float htype hone bits =>
      refine ⟨_, packField_f32 py (type_of_elemType htype) hone hraw, ?_⟩
      rw [occupied, if_neg hone, elementSize_eq hsized htype]
      rfl
  | floats htype hmany ws hcount =>
      refine ⟨_, packField_f32s py (type_of_elemType htype) hcount (by omega) hraw, ?_⟩
      rw [occupied, if_pos hmany, elementSize_eq hsized htype, hcount,
        List.length_flatMap]
      simp [ElemType.size, Int.mul_comm]

theorem exists_buildPayload (py : Runtime) (hsized : ∀ f ∈ layout, Sized f)
    (hmatches : Matches layout inputs) :
    ∃ payload, buildPayload py layout inputs = .ok payload ∧
      (payload.length : Int) = occupiedSize layout := by
  have hparts : ∃ parts, layout.mapM (packField py inputs) = .ok parts ∧
      (parts.flatten.length : Int) = occupiedSize layout := by
    induction layout with
    | nil => exact ⟨[], rfl, rfl⟩
    | cons f layout ih =>
        rw [Matches, List.forall_mem_cons] at hmatches
        rw [List.forall_mem_cons] at hsized
        obtain ⟨raw, hraw, hfits⟩ := hmatches.1
        obtain ⟨seg, hseg, hlength⟩ := exists_packField py hsized.1 hraw hfits
        obtain ⟨parts, hparts, hrest⟩ := ih hsized.2 hmatches.2
        refine ⟨seg :: parts, ?_, ?_⟩
        · rw [List.mapM_cons, hseg, ok_bind, hparts]
          rfl
        · rw [List.flatten_cons, List.length_append, Int.natCast_add, hlength, hrest]
          rfl
  obtain ⟨parts, hmapM, hlength⟩ := hparts
  exact ⟨parts.flatten, by rw [buildPayload, hmapM]; rfl, hlength⟩

def OneByte (v : PyVal) (b : UInt8) : Prop := v.keyInt = some (b.toNat : Int)

theorem toByte_eq_ok {v : PyVal} {b : UInt8} : v.toByte = .ok b ↔ OneByte v b := by
  rw [PyVal.toByte, OneByte]
  split
  next n hn =>
    rw [hn, Option.some.injEq]
    split_ifs with hrange
    · rw [Except.ok.injEq, ← UInt8.toNat_inj, UInt8.toNat_ofNat']
      omega
    · have hlt := b.toNat_lt
      exact iff_of_false (by simp) (by omega)
  next hnone => simp [hnone]

theorem oneByte_bounds {v : PyVal} {b : UInt8} {n : Int} (h : OneByte v b)
    (hn : v.keyInt = some n) : 0 ≤ n ∧ n ≤ 255 := by
  have hlt := b.toNat_lt
  obtain rfl := Option.some.inj (hn.symm.trans h)
  omega

/-- A frame is built just where one byte can state its length and its type. -/
theorem buildFrame_eq_ok {payload expected : List UInt8} {frameType : PyVal} :
    buildFrame payload frameType = .ok expected ↔ payload.length ≤ 255 ∧
      ∃ type, OneByte frameType type ∧ expected = encodeFrame payload type := by
  constructor
  · intro h
    have hparts := h
    simp only [buildFrame, bind_eq_ok, mapM_eq_ok] at hparts
    obtain ⟨header, hheader, -⟩ := hparts
    rcases hheader with _ | ⟨-, _ | ⟨-, _ | ⟨-, _ | ⟨hlength, _ | ⟨htype, -⟩⟩⟩⟩⟩
    have hlen := (oneByte_bounds (toByte_eq_ok.mp hlength) rfl).2
    have hle : payload.length ≤ 255 := by omega
    refine ⟨hle, _, toByte_eq_ok.mp htype, ?_⟩
    exact Except.ok.inj (h.symm.trans (buildFrame_eq hle htype))
  · rintro ⟨hlen, type, htype, rfl⟩
    exact buildFrame_eq hlen (toByte_eq_ok.mpr htype)

theorem exists_case_iff {schema frame frameType : PyVal} {frameName arrayName notes : String}
    {payload expected : List UInt8} (hframe : frameOf schema frameName = .ok frame)
    (hlayout : layoutOfFrame py frame = .ok layout)
    (hpayload : buildPayload py layout inputs = .ok payload)
    (htype : frame.getItem (.str "type") = .ok frameType) :
    (∃ c, caseFromInputs py schema frameName inputs arrayName notes = .ok c ∧
      c.expectedFrame = expected) ↔
      payload.length ≤ 255 ∧ ∃ type, OneByte frameType type ∧
        expected = encodeFrame payload type := by
  rw [frameOf, bind_eq_ok] at hframe
  obtain ⟨frames, hframes, hframe⟩ := hframe
  simp only [layoutOfFrame, bind_eq_ok] at hlayout
  obtain ⟨v, hv, items, hitems, hlayout⟩ := hlayout
  rw [← buildFrame_eq_ok]
  simp only [caseFromInputs, hframes, hframe, hv, hitems, hlayout, hpayload, htype, ok_bind,
    bind_eq_ok, pure_eq_ok]
  constructor
  · rintro ⟨c, ⟨expected, hbuild, rfl⟩, rfl⟩
    exact hbuild
  · intro hbuild
    exact ⟨_, ⟨expected, hbuild, rfl⟩, rfl⟩

theorem payloadSize_eq {schema frame : PyVal} {frameName arrayName notes : String}
    {payload : List UInt8} {c : GoldenGenerator.GoldenCase}
    (hframe : frameOf schema frameName = .ok frame)
    (hlayout : layoutOfFrame py frame = .ok layout)
    (hpayload : buildPayload py layout inputs = .ok payload)
    (h : caseFromInputs py schema frameName inputs arrayName notes = .ok c) :
    c.payloadSize = payload.length := by
  rw [frameOf, bind_eq_ok] at hframe
  obtain ⟨frames, hframes, hframe⟩ := hframe
  simp only [layoutOfFrame, bind_eq_ok] at hlayout
  obtain ⟨v, hv, items, hitems, hlayout⟩ := hlayout
  simp only [caseFromInputs, hframes, hframe, hv, hitems, hlayout, hpayload, ok_bind,
    bind_eq_ok, pure_eq_ok] at h
  obtain ⟨-, -, -, -, rfl⟩ := h
  rfl

section Sample

def sampleValue (f : LayoutField) : PyVal :=
  match elemType f.type with
  | some .u8 => if f.count > 1 then bytesVal (List.replicate f.count.toNat 0) else byteVal 0
  | _ => if f.count > 1 then floatsVal (List.replicate f.count.toNat 0) else .float 0

def sampleInputs (layout : List LayoutField) : PyVal :=
  .dict (layout.map fun f => (f.name, sampleValue f))

theorem fits_sampleValue (hsized : Sized f) : Fits f (sampleValue f) := by
  obtain ⟨t, htype, -⟩ := hsized.elemType
  have hlength : ∀ hmany : f.count > 1, f.count = f.count.toNat := fun hmany => by omega
  rw [sampleValue, htype]
  cases t with
  | u8 =>
      by_cases hmany : f.count > 1
      · simp only [if_pos hmany]
        exact .bytes htype hmany _ (by rw [List.length_replicate, ← hlength hmany])
      · simp only [if_neg hmany]
        exact .byte htype hmany 0
  | f32 =>
      by_cases hmany : f.count > 1
      · simp only [if_pos hmany]
        exact .floats htype hmany _ (by rw [List.length_replicate, ← hlength hmany])
      · simp only [if_neg hmany]
        exact .float htype hmany 0

theorem lookup_map {v : LayoutField → PyVal} (hf : f ∈ layout)
    (hhash : f.name.hashable = true)
    (hdistinct : layout.Pairwise fun f g => ¬f.name.sameKey g.name = true) :
    PyVal.lookup (layout.map fun f => (f.name, v f)) f.name = some (v f) := by
  induction layout with
  | nil => cases hf
  | cons g layout ih =>
      rw [List.pairwise_cons] at hdistinct
      rw [PyVal.lookup, List.map_cons]
      rcases List.mem_cons.mp hf with rfl | hmem
      · have hself := PyVal.sameKey_self hhash
        rw [List.find?_cons_of_pos (by simpa using hself)]
        rfl
      · have hne := hdistinct.1 f hmem
        rw [List.find?_cons_of_neg (by simpa using hne)]
        exact ih hmem hdistinct.2

/-- Where the names are distinct keys, some inputs match. -/
theorem matches_sampleInputs (hsized : ∀ f ∈ layout, Sized f)
    (hhash : ∀ f ∈ layout, f.name.hashable = true)
    (hdistinct : layout.Pairwise fun f g => ¬f.name.sameKey g.name = true) :
    Matches layout (sampleInputs layout) := by
  intro f hf
  refine ⟨sampleValue f, ?_, fits_sampleValue (hsized f hf)⟩
  simp only [sampleInputs, PyVal.getItem, if_pos (hhash f hf), lookup_map hf (hhash f hf) hdistinct]

end Sample

end RovSdk.GoldenFrames
