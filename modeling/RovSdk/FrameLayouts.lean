import Mathlib.Algebra.Order.BigOperators.Group.List
import Mathlib.Algebra.Order.Ring.Int
import RovSdk.CodeGenerator

namespace RovSdk.FrameLayouts

open RovSdk.Results
open RovSdk.PythonValues
open RovSdk.SchemaLayout
open RovSdk.SchemaValidator
open RovSdk.CodeGenerator

variable {py : Runtime} {offset : Int} {field name : PyVal} {fields names : List PyVal}
  {f : LayoutField} {layout : List LayoutField}

/-- The entry that `compute_layout` makes of a field at an offset. -/
structure LaidOut (py : Runtime) (offset : Int) (field : PyVal) (f : LayoutField) : Prop where
  name_eq : field.getItem (.str "name") = .ok f.name
  type_eq : field.getItem (.str "type") = .ok f.type
  count_eq : ∃ c, field.get (.str "count") (.int 1) = .ok c ∧ py.int c = .ok f.count
  elementSize_eq : typeSize f.type = .ok f.elementSize
  size_eq : f.size = f.elementSize * f.count
  offset_eq : f.offset = offset

theorem laidOut_of_layoutField (h : layoutField py offset field = .ok f) :
    LaidOut py offset field f := by
  simp only [layoutField, bind_eq_ok, pure_eq_ok] at h
  obtain ⟨type, htype, c, hc, count, hcount, elem, helem, name, hname, unit, hunit, range,
    hrange, notes, hnotes, rfl⟩ := h
  exact ⟨hname, htype, ⟨c, hc, hcount⟩, helem, rfl, rfl⟩

/-- Each entry begins where the one before it ends. -/
def Consecutive : Int → List LayoutField → Prop
  | _, [] => True
  | offset, f :: layout => f.offset = offset ∧ Consecutive (offset + f.size) layout

theorem laidOut_of_computeLayoutFrom (h : computeLayoutFrom py offset fields = .ok layout) :
    List.Forall₂ (fun field f => LaidOut py f.offset field f) fields layout ∧
      Consecutive offset layout := by
  induction fields generalizing offset layout with
  | nil =>
      obtain rfl := pure_eq_ok.mp h
      exact ⟨.nil, trivial⟩
  | cons field fields ih =>
      simp only [computeLayoutFrom, bind_eq_ok, pure_eq_ok] at h
      obtain ⟨f, hf, rest, hrest, rfl⟩ := h
      have hlaid := laidOut_of_layoutField hf
      obtain ⟨hfields, hconsecutive⟩ := ih hrest
      refine ⟨.cons ?_ hfields, hlaid.offset_eq, hconsecutive⟩
      rwa [hlaid.offset_eq]

theorem isDict_iff {v : PyVal} : isDict v = true ↔ ∃ entries, v = .dict entries := by
  cases v <;> simp [isDict]

theorem exists_layoutField (hvalid : ValidField field name) {c : PyVal} {n : Int}
    (hc : field.get (.str "count") (.int 1) = .ok c) (hn : py.int c = .ok n) (offset : Int) :
    ∃ f, layoutField py offset field = .ok f := by
  obtain ⟨entries, rfl⟩ := isDict_iff.mp hvalid.dict
  simp only [PyVal.get, Except.ok.injEq] at hc
  rcases hvalid.type_eq with htype | htype
  · simp only [layoutField, htype, hvalid.name_eq, PyVal.get, hc, hn, ok_bind]
    exact ⟨_, rfl⟩
  · simp only [layoutField, htype, hvalid.name_eq, PyVal.get, hc, hn, ok_bind]
    exact ⟨_, rfl⟩

theorem exists_computeLayoutFrom (hvalid : List.Forall₂ ValidField fields names)
    (hcounts : ∀ field ∈ fields, ∃ c n,
      field.get (.str "count") (.int 1) = .ok c ∧ py.int c = .ok n) (offset : Int) :
    ∃ layout, computeLayoutFrom py offset fields = .ok layout := by
  induction hvalid generalizing offset with
  | nil => exact ⟨[], rfl⟩
  | cons hfield _ ih =>
      rw [List.forall_mem_cons] at hcounts
      obtain ⟨⟨c, n, hc, hn⟩, hrest⟩ := hcounts
      obtain ⟨f, hf⟩ := exists_layoutField hfield hc hn offset
      obtain ⟨layout, hlayout⟩ := ih hrest (offset + f.size)
      exact ⟨f :: layout, by rw [computeLayoutFrom, hf, ok_bind, hlayout]; rfl⟩

theorem LaidOut.elemType (h : LaidOut py offset field f) (hvalid : ValidField field name) :
    ∃ t : ElemType, elemType f.type = some t ∧ f.elementSize = t.size := by
  have hsize := h.elementSize_eq
  rcases hvalid.type_eq with htype | htype
  · have hu8 : f.type = .str "u8" := Except.ok.inj (h.type_eq.symm.trans htype)
    rw [hu8] at hsize ⊢
    exact ⟨.u8, rfl, (Except.ok.inj hsize).symm⟩
  · have hf32 : f.type = .str "f32" := Except.ok.inj (h.type_eq.symm.trans htype)
    rw [hf32] at hsize ⊢
    exact ⟨.f32, rfl, (Except.ok.inj hsize).symm⟩

theorem layoutOfFrame_eq {frame : PyVal}
    (hfields : frame.getItem (.str "fields") = .ok (.list fields)) :
    layoutOfFrame py frame = computeLayout py fields := by
  rw [layoutOfFrame, hfields, ok_bind, PyVal.items, ok_bind]

/-- The bytes of a field in its struct and in a payload: those of one element at least. -/
def occupied (f : LayoutField) : Int := f.elementSize * if f.count > 1 then f.count else 1

def occupiedSize (layout : List LayoutField) : Int := (layout.map occupied).sum

/-- An entry of one of the two types, with the size of its elements and in all. -/
structure Sized (f : LayoutField) : Prop where
  elemType : ∃ t, elemType f.type = some t ∧ f.elementSize = t.size
  size_eq : f.size = f.elementSize * f.count

theorem LaidOut.sized (h : LaidOut py offset field f)
    (hvalid : ValidField field name) : Sized f :=
  ⟨h.elemType hvalid, h.size_eq⟩

theorem sized_of_laidOut
    (hlaid : List.Forall₂ (fun field f => LaidOut py f.offset field f) fields layout)
    (hvalid : List.Forall₂ ValidField fields names) : ∀ f ∈ layout, Sized f := by
  intro f hf
  obtain ⟨field, hfield, hplaced⟩ := exists_of_mem_right hlaid hf
  obtain ⟨name, -, hname⟩ := exists_of_mem_left hvalid hfield
  exact LaidOut.sized hplaced hname

namespace Sized

theorem elementSize_pos (h : Sized f) : 0 < f.elementSize := by
  obtain ⟨t, -, hsize⟩ := h.elemType
  rw [hsize]
  cases t <;> decide

theorem size_le_occupied (h : Sized f) : f.size ≤ occupied f := by
  rw [h.size_eq, occupied]
  refine Int.mul_le_mul_of_nonneg_left ?_ h.elementSize_pos.le
  split_ifs <;> omega

theorem size_eq_occupied_iff (h : Sized f) : f.size = occupied f ↔ 1 ≤ f.count := by
  rw [h.size_eq, occupied, Int.mul_eq_mul_left_iff h.elementSize_pos.ne']
  split_ifs <;> omega

theorem size_pos (h : Sized f) (hcount : 1 ≤ f.count) : 0 < f.size := by
  rw [h.size_eq]
  exact Int.mul_pos h.elementSize_pos (by omega)

end Sized

theorem totalSize_le_occupiedSize (h : ∀ f ∈ layout, Sized f) :
    totalSize layout ≤ occupiedSize layout :=
  List.sum_le_sum fun f hf => (h f hf).size_le_occupied

/-- Entries state as many bytes as they occupy only where each does. -/
theorem totalSize_eq_iff (h : ∀ f ∈ layout, Sized f) :
    totalSize layout = occupiedSize layout ↔ ∀ f ∈ layout, 1 ≤ f.count := by
  induction layout with
  | nil => simp [totalSize, occupiedSize]
  | cons f layout ih =>
      rw [List.forall_mem_cons] at h
      have hrest := totalSize_le_occupiedSize h.2
      have hhead := h.1.size_le_occupied
      have hiff := h.1.size_eq_occupied_iff
      have htotal : totalSize (f :: layout) = f.size + totalSize layout := rfl
      have hoccupied : occupiedSize (f :: layout) = occupied f + occupiedSize layout := rfl
      rw [List.forall_mem_cons, ← hiff, ← ih h.2]
      omega

theorem one_le_count_iff
    (hlaid : List.Forall₂ (fun field f => LaidOut py f.offset field f) fields layout) :
    (∀ f ∈ layout, 1 ≤ f.count) ↔ ∀ field ∈ fields, ∀ c n,
      field.get (.str "count") (.int 1) = .ok c → py.int c = .ok n → 1 ≤ n := by
  induction hlaid with
  | nil => simp
  | @cons field f fields layout hfield _ ih =>
      obtain ⟨c, hget, hint⟩ := hfield.count_eq
      rw [List.forall_mem_cons, List.forall_mem_cons, ih]
      refine and_congr_left' ⟨fun h c' n hget' hint' => ?_, fun h => h c f.count hget hint⟩
      obtain rfl := Except.ok.inj (hget.symm.trans hget')
      rwa [← Except.ok.inj (hint.symm.trans hint')]

structure LayoutOf (py : Runtime) (fields : List PyVal) (layout : List LayoutField) : Prop where
  entries : List.Forall₂ (fun field f => LaidOut py f.offset field f) fields layout
  consecutive : Consecutive 0 layout
  sized : ∀ f ∈ layout, Sized f
  hashable : ∀ f ∈ layout, f.name.hashable = true
  distinct : layout.Pairwise fun f g => ¬f.name.sameKey g.name = true

theorem map_name_eq
    (hlaid : List.Forall₂ (fun field f => LaidOut py f.offset field f) fields layout)
    (hvalid : List.Forall₂ ValidField fields names) : layout.map LayoutField.name = names := by
  induction hlaid generalizing names with
  | nil =>
      rcases hvalid with _ | _
      rfl
  | cons hfield _ ih =>
      rcases hvalid with _ | ⟨hname, hrest⟩
      rw [List.map_cons, ih hrest, Except.ok.inj (hfield.name_eq.symm.trans hname.name_eq)]

theorem layoutOf_of_computeLayout (hvalid : ValidFields fields names)
    (h : computeLayout py fields = .ok layout) : LayoutOf py fields layout := by
  obtain ⟨hlaid, hconsecutive⟩ := laidOut_of_computeLayoutFrom h
  refine ⟨hlaid, hconsecutive, sized_of_laidOut hlaid hvalid.fields, ?_, ?_⟩
  · intro f hf
    obtain ⟨field, hfield, hplaced⟩ := exists_of_mem_right hlaid hf
    obtain ⟨name, -, hname⟩ := exists_of_mem_left hvalid.fields hfield
    rw [Except.ok.inj (hplaced.name_eq.symm.trans hname.name_eq)]
    exact hname.hashable
  · have hdistinct := hvalid.distinct
    rwa [← map_name_eq hlaid hvalid.fields, List.pairwise_map] at hdistinct

end RovSdk.FrameLayouts
