import Mathlib.Algebra.Order.BigOperators.Group.List
import Mathlib.Algebra.Order.Ring.Int
import RovSdk.FrameLayouts
import RovSdk.GeneratorContext
import RovSdk.ProtocolSchema

namespace RovSdk.GeneratedStructs

open RovSdk.Results
open RovSdk.PythonValues
open RovSdk.SchemaLayout
open RovSdk.SchemaValidator
open RovSdk.CodeGenerator
open RovSdk.FrameLayouts
open RovSdk.GeneratorContext
open RovSdk.Packets
open RovSdk.ProtocolSchema

variable {py : TextRuntime} {offset : Int} {field name : PyVal} {fields names : List PyVal}
  {f : LayoutField} {layout : List LayoutField}

/-- `sizeof` of a member of a packed struct. -/
def sizeofMember (m : Member) : Int :=
  match m.type with
  | some t => t.size * m.count.getD 1
  | none => 0

def sizeofStruct (members : List Member) : Int := (members.map sizeofMember).sum

def memberOffsets : Int → List Member → List Int
  | _, [] => []
  | offset, m :: members => offset :: memberOffsets (offset + sizeofMember m) members

/-- The bytes that a field of a message has on the wire. -/
def sizeofMsgField (f : MsgField) : Int :=
  match f.type with
  | some t => t.size * ((f.count.bind PyVal.keyInt).getD 1)
  | none => 0

def sizeofMsg (msg : List MsgField) : Int := (msg.map sizeofMsgField).sum

/-- A layout states the offsets and the size of a packed struct, its ranges tile the
payload in order, and a message lists as many bytes. -/
structure Describes (layout : List LayoutField) (members : List Member) (payloadSize : Int)
    (msg : List MsgField) : Prop where
  offsets : layout.map LayoutField.offset = memberOffsets 0 members
  ordered : layout.Pairwise fun f g => f.offset + f.size ≤ g.offset
  tiles : ∀ b, 0 ≤ b ∧ b < payloadSize ↔
    ∃ f ∈ layout, f.offset ≤ b ∧ b < f.offset + f.size
  struct : payloadSize = sizeofStruct members
  message : payloadSize = sizeofMsg msg

theorem sizeofMember_member (h : Sized f) : sizeofMember (member f) = occupied f := by
  obtain ⟨t, htype, hsize⟩ := h.elemType
  simp only [sizeofMember, member, htype, occupied, hsize]
  split_ifs <;> rfl

theorem sizeofStruct_map_member (h : ∀ f ∈ layout, Sized f) :
    sizeofStruct (layout.map member) = occupiedSize layout := by
  rw [sizeofStruct, List.map_map]
  exact congrArg _ (List.map_congr_left fun f hf => sizeofMember_member (h f hf))

/-- The count of a field, where it is an integer. -/
def fieldCount (field : PyVal) : Option Int :=
  match field.get (.str "count") (.int 1) with
  | .ok count => count.keyInt
  | .error _ => none

theorem get_of_fieldCount {n : Int} (h : fieldCount field = some n) :
    ∃ c, field.get (.str "count") (.int 1) = .ok c ∧ c.keyInt = some n := by
  rw [fieldCount] at h
  split at h
  next c hget => exact ⟨c, hget, h⟩
  next => cases h

theorem int_of_keyInt (py : Runtime) {c : PyVal} {n : Int} (h : c.keyInt = some n) :
    py.int c = .ok n := by
  cases c <;> simp_all [PyVal.keyInt, Runtime.int]

theorem LaidOut.count_of_fieldCount {py : Runtime} (h : LaidOut py offset field f) {n : Int}
    (hcount : fieldCount field = some n) : f.count = n := by
  obtain ⟨c, hget, hint⟩ := h.count_eq
  obtain ⟨c', hget', hkey⟩ := get_of_fieldCount hcount
  obtain rfl := Except.ok.inj (hget.symm.trans hget')
  exact Except.ok.inj (hint.symm.trans (int_of_keyInt py hkey))

theorem aboveOne_of_keyInt (py : TextRuntime) {c : PyVal} {n : Int} (h : c.keyInt = some n) :
    aboveOne py c = .ok (decide (n > 1)) := by
  match c with
  | .bool false => obtain rfl := Option.some.inj h; rfl
  | .bool true => obtain rfl := Option.some.inj h; rfl
  | .int m => obtain rfl := Option.some.inj h; rfl

theorem exists_msgField (py : TextRuntime) {n : Int} (hlaid : LaidOut py.toRuntime offset field f)
    (hsized : Sized f) (hcount : fieldCount field = some n) :
    ∃ row, msgField py field = .ok row ∧ sizeofMsgField row = occupied f := by
  have hn := LaidOut.count_of_fieldCount hlaid hcount
  obtain ⟨c, hget, hkey⟩ := get_of_fieldCount hcount
  obtain ⟨t, htype, hsize⟩ := hsized.elemType
  refine ⟨⟨elemType f.type, if decide (n > 1) then some c else none, f.name⟩, ?_, ?_⟩
  · simp only [msgField, hget, aboveOne_of_keyInt py hkey, hlaid.type_eq, hlaid.name_eq, ok_bind]
    rfl
  · simp only [sizeofMsgField, htype, occupied, hsize, hn]
    by_cases hmany : n > 1
    · simp [hmany, hkey]
    · simp [hmany]

theorem fieldCount_toPy (e : FieldEntry) :
    fieldCount e.toPy = some ((e.count.getD 1 : Nat) : Int) := by
  obtain ⟨name, type, unit, range, notes, count⟩ := e
  cases count <;> rfl

theorem convertible_of_fieldCount (py : Runtime) (h : ∃ n, fieldCount field = some n) :
    ∃ c n, field.get (.str "count") (.int 1) = .ok c ∧ py.int c = .ok n := by
  obtain ⟨n, hcount⟩ := h
  obtain ⟨c, hget, hkey⟩ := get_of_fieldCount hcount
  exact ⟨c, n, hget, int_of_keyInt py hkey⟩

theorem counts_iff {py : Runtime}
    (hlaid : List.Forall₂ (fun field f => LaidOut py f.offset field f) fields layout)
    (hcounts : ∀ field ∈ fields, ∃ n, fieldCount field = some n) :
    (∀ f ∈ layout, 1 ≤ f.count) ↔ ∀ field ∈ fields, ∀ n, fieldCount field = some n → 1 ≤ n := by
  induction hlaid with
  | nil => simp
  | @cons field f fields layout hfield _ ih =>
      rw [List.forall_mem_cons] at hcounts
      obtain ⟨n, hcount⟩ := hcounts.1
      rw [List.forall_mem_cons, List.forall_mem_cons, ih hcounts.2,
        LaidOut.count_of_fieldCount hfield hcount, hcount]
      simp

theorem exists_msg (py : TextRuntime)
    (hlaid : List.Forall₂ (fun field f => LaidOut py.toRuntime f.offset field f) fields layout)
    (hsized : ∀ f ∈ layout, Sized f) (hcounts : ∀ field ∈ fields, ∃ n, fieldCount field = some n) :
    ∃ msg, fields.mapM (msgField py) = .ok msg ∧ sizeofMsg msg = occupiedSize layout := by
  induction hlaid with
  | nil => exact ⟨[], rfl, rfl⟩
  | @cons field f fields layout hfield _ ih =>
      rw [List.forall_mem_cons] at hsized hcounts
      obtain ⟨n, hcount⟩ := hcounts.1
      obtain ⟨row, hrow, hsize⟩ := exists_msgField py hfield hsized.1 hcount
      obtain ⟨msg, hmsg, htotal⟩ := ih hsized.2 hcounts.2
      refine ⟨row :: msg, ?_, ?_⟩
      · rw [List.mapM_cons, hrow, ok_bind, hmsg]
        rfl
      · rw [sizeofMsg, List.map_cons, List.sum_cons, hsize, ← sizeofMsg, htotal]
        rfl

theorem memberOffsets_map_member (hconsecutive : Consecutive offset layout)
    (hsized : ∀ f ∈ layout, Sized f) (hcounts : ∀ f ∈ layout, 1 ≤ f.count) :
    layout.map LayoutField.offset = memberOffsets offset (layout.map member) := by
  induction layout generalizing offset with
  | nil => rfl
  | cons f layout ih =>
      obtain ⟨hoffset, hrest⟩ := hconsecutive
      rw [List.forall_mem_cons] at hsized hcounts
      rw [List.map_cons, List.map_cons, memberOffsets, sizeofMember_member hsized.1,
        ← hsized.1.size_eq_occupied_iff.mpr hcounts.1, hoffset, ih hrest hsized.2 hcounts.2]

section Placed

variable (hpos : ∀ f ∈ layout, 0 < f.size)
include hpos

theorem bounds_of_consecutive (hconsecutive : Consecutive offset layout) :
    ∀ f ∈ layout, offset ≤ f.offset ∧ f.offset + f.size ≤ offset + totalSize layout := by
  induction layout generalizing offset with
  | nil => simp
  | cons f layout ih =>
      obtain ⟨hoffset, hrest⟩ := hconsecutive
      rw [List.forall_mem_cons] at hpos
      have htail := ih hpos.2 hrest
      have hnonneg : 0 ≤ totalSize layout :=
        List.sum_nonneg (by simpa using fun g hg => (hpos.2 g hg).le)
      have htotal : totalSize (f :: layout) = f.size + totalSize layout := rfl
      rw [List.forall_mem_cons, htotal]
      refine ⟨by omega, fun g hg => ?_⟩
      have hg' := htail g hg
      omega

theorem ordered_of_consecutive (hconsecutive : Consecutive offset layout) :
    layout.Pairwise fun f g => f.offset + f.size ≤ g.offset := by
  induction layout generalizing offset with
  | nil => exact .nil
  | cons f layout ih =>
      obtain ⟨hoffset, hrest⟩ := hconsecutive
      rw [List.forall_mem_cons] at hpos
      refine .cons (fun g hg => ?_) (ih hpos.2 hrest)
      have hbounds := bounds_of_consecutive hpos.2 hrest g hg
      omega

theorem tiles_of_consecutive (hconsecutive : Consecutive offset layout) (b : Int) :
    offset ≤ b ∧ b < offset + totalSize layout ↔
      ∃ f ∈ layout, f.offset ≤ b ∧ b < f.offset + f.size := by
  induction layout generalizing offset with
  | nil => simp [totalSize]
  | cons f layout ih =>
      obtain ⟨hoffset, hrest⟩ := hconsecutive
      rw [List.forall_mem_cons] at hpos
      have htotal : totalSize (f :: layout) = f.size + totalSize layout := rfl
      have hnonneg : 0 ≤ totalSize layout :=
        List.sum_nonneg (by simpa using fun g hg => (hpos.2 g hg).le)
      rw [List.exists_mem_cons_iff, ← ih hpos.2 hrest, htotal]
      omega

end Placed

theorem describes_iff {msg : List MsgField} (hconsecutive : Consecutive 0 layout)
    (hsized : ∀ f ∈ layout, Sized f) (hmsg : sizeofMsg msg = occupiedSize layout) :
    Describes layout (layout.map member) (totalSize layout) msg ↔ ∀ f ∈ layout, 1 ≤ f.count := by
  constructor
  · intro h
    rw [← totalSize_eq_iff hsized, ← sizeofStruct_map_member hsized]
    exact h.struct
  · intro hcounts
    have hpos : ∀ f ∈ layout, 0 < f.size := fun f hf => (hsized f hf).size_pos (hcounts f hf)
    have htotal := (totalSize_eq_iff hsized).mpr hcounts
    refine ⟨memberOffsets_map_member hconsecutive hsized hcounts,
      ordered_of_consecutive hpos hconsecutive, fun b => ?_, ?_, by rw [hmsg, htotal]⟩
    · rw [← tiles_of_consecutive hpos hconsecutive, Int.zero_add]
    · rw [sizeofStruct_map_member hsized, htotal]

/-- For an accepted schema whose counts are integers, the layout describes the struct and
the message generated from the same fields just where no count is below one. -/
theorem generated_structs_described_iff (py : TextRuntime) {data schema frame : PyVal}
    {fields : List PyVal} (k : PacketType) (haccepted : loadSchema data = .ok schema)
    (hframe : frameOf schema (packetName k) = .ok frame)
    (hfields : frame.getItem (.str "fields") = .ok (.list fields))
    (hcounts : ∀ field ∈ fields, ∃ n, fieldCount field = some n) :
    ∃ layout msg, layoutOfFrame py.toRuntime frame = .ok layout ∧
      fields.mapM (msgField py) = .ok msg ∧
      (∀ header, renderC py schema = .ok header →
        cStruct header k = layout.map member ∧ cPayloadSize header k = totalSize layout) ∧
      (∀ file, renderMsg py schema (packetName k) = .ok file → file.fields = msg) ∧
      (Describes layout (layout.map member) (totalSize layout) msg ↔
        ∀ field ∈ fields, ∀ n, fieldCount field = some n → 1 ≤ n) := by
  obtain ⟨fields', names, hfields', hvalid⟩ := fields_of_loadSchema haccepted hframe
  obtain rfl := PyVal.list.inj (Except.ok.inj (hfields.symm.trans hfields'))
  obtain ⟨layout, hlayout⟩ := exists_computeLayoutFrom hvalid.fields
    (fun field hfield => convertible_of_fieldCount py.toRuntime (hcounts field hfield)) 0
  have hof := layoutOf_of_computeLayout hvalid hlayout
  obtain ⟨msg, hmsg, hsize⟩ := exists_msg py hof.entries hof.sized hcounts
  have hlayoutOf : layoutOfFrame py.toRuntime frame = .ok layout := by
    rw [layoutOfFrame_eq hfields, computeLayout, hlayout]
  refine ⟨layout, msg, hlayoutOf, hmsg, ?_, ?_, ?_⟩
  · intro header hheader
    obtain ⟨ctx, hctx, hstruct, hpayload⟩ := renderC_ok hheader
    rw [hstruct, hpayload, ctxFields_eq hctx hframe hlayoutOf, ctxSize_eq hctx hframe hlayoutOf]
    exact ⟨rfl, rfl⟩
  · intro file hfile
    exact Except.ok.inj ((renderMsg_ok hfile hframe hfields).symm.trans hmsg)
  · rw [describes_iff hof.consecutive hof.sized hsize]
    exact counts_iff hof.entries hcounts

theorem protocol_structs_described : ∃ frame layout msg,
    frameOf protocolYaml "TelemetryPacket" = .ok frame ∧
      layoutOfFrame plainRuntime.toRuntime frame = .ok layout ∧
      (∀ file, renderMsg plainRuntime protocolYaml "TelemetryPacket" = .ok file →
        file.fields = msg) ∧
      Describes layout (layout.map member) (totalSize layout) msg := by
  have haccepted : loadSchema protocolYaml = .ok protocolYaml := rfl
  have hpositive : ∀ e ∈ teleFields, 1 ≤ e.count.getD 1 := by decide
  have hcounts : ∀ field ∈ teleFields.map FieldEntry.toPy, ∃ n, fieldCount field = some n := by
    intro field hfield
    obtain ⟨e, -, rfl⟩ := List.mem_map.mp hfield
    exact ⟨_, fieldCount_toPy e⟩
  obtain ⟨layout, msg, hlayout, -, -, hfile, hdescribes⟩ :=
    generated_structs_described_iff plainRuntime .tele haccepted rfl rfl hcounts
  refine ⟨_, layout, msg, rfl, hlayout, hfile, hdescribes.mpr fun field hfield n hn => ?_⟩
  obtain ⟨e, he, rfl⟩ := List.mem_map.mp hfield
  have hone := hpositive e he
  rw [fieldCount_toPy] at hn
  obtain rfl := Option.some.inj hn
  omega

/-- The schema with a command of one field, of count 0. -/
def emptyModeSchema : PyVal :=
  schemaWith 2 [⟨"mode", "u8", "", modeRange, "运行模式", some 0⟩] teleFields

/-- It is accepted; the C header declares a struct of one byte and asserts a size of 0. -/
theorem empty_mode_not_described : ∃ frame field layout header file,
    loadSchema emptyModeSchema = .ok emptyModeSchema ∧
      frameOf emptyModeSchema "CmdPacket" = .ok frame ∧
      frame.getItem (.str "fields") = .ok (.list [field]) ∧ fieldCount field = some 0 ∧
      layoutOfFrame plainRuntime.toRuntime frame = .ok layout ∧
      renderC plainRuntime emptyModeSchema = .ok header ∧
      renderMsg plainRuntime emptyModeSchema "CmdPacket" = .ok file ∧
      ¬Describes layout header.cmdPacket header.ouCmdPayloadSize file.fields := by
  refine ⟨_, _, _, _, _, rfl, rfl, rfl, rfl, rfl, rfl, rfl, fun h => ?_⟩
  exact absurd h.struct (by decide)

end RovSdk.GeneratedStructs
