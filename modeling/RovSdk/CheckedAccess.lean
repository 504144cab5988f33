import RovSdk.ListSlices

/-!
Accesses that check their range.  A computation over a buffer is written in `Checked`,
where an access outside of the buffer, a difference that would wrap and a loop that runs
out of its turns are faults; that it has the result of the plain computation then says
that none of these happens.
-/

namespace RovSdk.CheckedAccess

open RovSdk.ListSlices

inductive Fault where
  | outOfRange
  | wrapped
  | notTerminated
  deriving DecidableEq, Repr

abbrev Checked := Except Fault

variable {α : Type} {xs : List α}

def readAt (xs : List α) (i : Nat) : Checked α :=
  match xs[i]? with
  | some a => .ok a
  | none => .error .outOfRange

def subSpan (xs : List α) (off len : Nat) : Checked (List α) :=
  if off + len ≤ xs.length then .ok (slice xs off len) else .error .outOfRange

def eraseFront (xs : List α) (n : Nat) : Checked (List α) :=
  if n ≤ xs.length then .ok (xs.drop n) else .error .outOfRange

def subtract (a b : Nat) : Checked Nat :=
  if b ≤ a then .ok (a - b) else .error .wrapped

theorem readAt_of_lt {i : Nat} (h : i < xs.length) (d : α) :
    readAt xs i = .ok (xs.getD i d) := by
  rw [readAt, List.getElem?_eq_getElem h, List.getD_eq_getElem _ _ h]

theorem subSpan_of_le {off len : Nat} (h : off + len ≤ xs.length) :
    subSpan xs off len = .ok (slice xs off len) := if_pos h

theorem eraseFront_of_le {n : Nat} (h : n ≤ xs.length) :
    eraseFront xs n = .ok (xs.drop n) := if_pos h

theorem subtract_of_le {a b : Nat} (h : b ≤ a) : subtract a b = .ok (a - b) := if_pos h

theorem ofFnM_ok {n : Nat} {f : Fin n → Checked α} {g : Fin n → α}
    (h : ∀ i, f i = .ok (g i)) : Vector.ofFnM f = .ok (Vector.ofFn g) := by
  rw [show f = fun i => pure (g i) from funext h, Vector.ofFnM_pure]
  rfl

end RovSdk.CheckedAccess
