import Mathlib.Algebra.Ring.Nat
import Mathlib.Data.List.GetD
import Mathlib.Data.List.OfFn

namespace RovSdk.ListSlices

variable {α : Type*}

/-- The `len` entries of `s` from offset `off` on, cut short at the end of `s`. -/
def slice (s : List α) (off len : Nat) : List α := (s.drop off).take len

theorem length_slice {s : List α} {off len : Nat} (h : off + len ≤ s.length) :
    (slice s off len).length = len := by
  rw [slice, List.length_take, List.length_drop]
  omega

@[simp] theorem slice_self (s : List α) : slice s 0 s.length = s := by
  simp [slice]

theorem slice_append_slice (s : List α) (off m n : Nat) :
    slice s off m ++ slice s (off + m) n = slice s off (m + n) := by
  rw [slice, slice, slice, ← List.drop_drop, List.take_add]

theorem slice_append_left {s : List α} {off len : Nat} (h : off + len ≤ s.length)
    (t : List α) : slice (s ++ t) off len = slice s off len := by
  rw [slice, slice, List.drop_append_of_le_length (by omega),
    List.take_append_of_le_length (by rw [List.length_drop]; omega)]

theorem slice_append_right (p s : List α) (off len : Nat) :
    slice (p ++ s) (p.length + off) len = slice s off len := by
  rw [slice, slice, List.drop_append, List.drop_eq_nil_of_le (by omega)]
  simp

theorem slice_drop (s : List α) (i off len : Nat) :
    slice (s.drop i) off len = slice s (i + off) len := by
  rw [slice, slice, List.drop_drop]

theorem slice_append_self (p s : List α) : slice (p ++ s) 0 p.length = p := by
  simp [slice]

theorem slice_middle {p m t : List α} {off len : Nat} (hp : p.length = off)
    (hm : m.length = len) : slice (p ++ (m ++ t)) off len = m := by
  subst hp hm
  simpa using slice_append_right p (m ++ t) 0 m.length |>.trans (slice_append_self m t)

theorem getD_slice {s : List α} {off len k : Nat} (hk : k < len) (d : α) :
    (slice s off len).getD k d = s.getD (off + k) d := by
  simp only [slice, List.getD_eq_getElem?_getD]
  rw [List.getElem?_take_of_lt hk, List.getElem?_drop]

theorem slice_one {s : List α} {off : Nat} (h : off < s.length) (d : α) :
    slice s off 1 = [s.getD off d] := by
  rw [slice, List.drop_eq_getElem_cons h, List.getD_eq_getElem _ _ h]
  rfl

theorem ofFn_getD {s : List α} {off n : Nat} (h : off + n ≤ s.length) (d : α) :
    List.ofFn (fun i : Fin n => s.getD (off + i) d) = slice s off n := by
  apply List.ext_getElem
  · rw [List.length_ofFn, length_slice h]
  · intro i hi _
    have hin : i < n := by simpa using hi
    rw [List.getElem_ofFn, ← getD_slice hin d, List.getD_eq_getElem]

/-- Cut fields of the given widths out of `s`, one after another from `off` on. -/
def cuts (s : List α) : Nat → List Nat → List (List α)
  | _, [] => []
  | off, w :: ws => slice s off w :: cuts s (off + w) ws

theorem cuts_flatten (s : List α) (off : Nat) (widths : List Nat) :
    (cuts s off widths).flatten = slice s off widths.sum := by
  induction widths generalizing off with
  | nil => simp [cuts, slice]
  | cons w ws ih => rw [cuts, List.flatten_cons, ih, slice_append_slice, List.sum_cons]

end RovSdk.ListSlices
