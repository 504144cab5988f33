import Mathlib.Data.List.Basic
import Mathlib.Tactic.Common

/-!
Greedy extraction of frames from a stream that arrives in pieces.  A recognizer
judges what a stream may start with: reject its first entry, wait for more of
it, or accept a prefix of some length.  Because rejections and acceptances are
never taken back when more of the stream arrives, a partial scan of the part
already seen is also a partial scan of every longer stream.
-/

namespace RovSdk.GreedyScan

variable {α : Type*}

inductive Verdict where
  | reject
  | wait
  | accept (n : Nat)
  deriving DecidableEq, Repr

structure Recognizer (α : Type*) where
  verdict : List α → Verdict
  verdict_nil : verdict [] = .wait
  reject_append : ∀ {s : List α}, verdict s = .reject → ∀ t, verdict (s ++ t) = .reject
  accept_append : ∀ {s : List α} {n : Nat}, verdict s = .accept n →
    ∀ t, verdict (s ++ t) = .accept n
  accept_pos : ∀ {s : List α} {n : Nat}, verdict s = .accept n → 0 < n
  accept_le : ∀ {s : List α} {n : Nat}, verdict s = .accept n → n ≤ s.length

variable (R : Recognizer α)

theorem ne_nil_of_verdict_ne_wait {R : Recognizer α} {s : List α}
    (h : R.verdict s ≠ .wait) : s ≠ [] := by
  rintro rfl
  exact h R.verdict_nil

/-- Every frame that a greedy scan of `s` finds, with its offset; the first entry
of `s` has offset `c`. -/
def scan (c : Nat) (s : List α) : List (Nat × List α) :=
  match h : R.verdict s with
  | .wait => []
  | .reject => scan (c + 1) s.tail
  | .accept n => (c, s.take n) :: scan (c + n) (s.drop n)
termination_by s.length
decreasing_by
  · have hne : s ≠ [] := ne_nil_of_verdict_ne_wait (R := R) (by simp [h])
    have hpos := List.length_pos_iff.mpr hne
    rw [List.length_tail]
    omega
  · have hpos := R.accept_pos h
    have hle := R.accept_le h
    rw [List.length_drop]
    omega

theorem scan_of_wait {R : Recognizer α} {s : List α} (h : R.verdict s = .wait)
    (c : Nat) : scan R c s = [] := by
  rw [scan]
  split <;> simp_all

theorem scan_of_reject {R : Recognizer α} {a : α} {s : List α}
    (h : R.verdict (a :: s) = .reject) (c : Nat) :
    scan R c (a :: s) = scan R (c + 1) s := by
  rw [scan]
  split <;> simp_all

theorem scan_of_accept {R : Recognizer α} {s : List α} {n : Nat}
    (h : R.verdict s = .accept n) (c : Nat) :
    scan R c s = (c, s.take n) :: scan R (c + n) (s.drop n) := by
  rw [scan]
  split <;> simp_all

/-- A partial scan: from offset `c` with `s` ahead to offset `c'` with `s'` ahead,
finding the listed frames on the way. -/
inductive Advance : Nat → List α → List (Nat × List α) → Nat → List α → Prop
  | refl (c : Nat) (s : List α) : Advance c s [] c s
  | skip {c : Nat} {a : α} {s : List α} {out : List (Nat × List α)} {c' : Nat}
      {s' : List α} : R.verdict (a :: s) = .reject → Advance (c + 1) s out c' s' →
      Advance c (a :: s) out c' s'
  | emit {c : Nat} {s : List α} {n : Nat} {out : List (Nat × List α)} {c' : Nat}
      {s' : List α} : R.verdict s = .accept n → Advance (c + n) (s.drop n) out c' s' →
      Advance c s ((c, s.take n) :: out) c' s'

variable {R} {c c' c'' : Nat} {s s' s'' : List α} {out out' : List (Nat × List α)}

namespace Advance

theorem trans (h : Advance R c s out c' s') (h' : Advance R c' s' out' c'' s'') :
    Advance R c s (out ++ out') c'' s'' := by
  induction h with
  | refl => exact h'
  | skip hv _ ih => exact .skip hv (ih h')
  | emit hv _ ih => exact .emit hv (ih h')

theorem single {n : Nat} (c : Nat) (h : R.verdict s = .accept n) :
    Advance R c s [(c, s.take n)] (c + n) (s.drop n) :=
  .emit h (.refl _ _)

/-- What has been scanned stays scanned when more of the stream arrives. -/
theorem append (h : Advance R c s out c' s') (t : List α) :
    Advance R c (s ++ t) out c' (s' ++ t) := by
  induction h with
  | refl => exact .refl _ _
  | skip hv _ ih => exact .skip (R.reject_append hv t) ih
  | @emit c s n _ _ _ hv _ ih =>
      have hle := R.accept_le hv
      have hstep := Advance.emit (c := c) (R.accept_append hv t)
        (by rw [List.drop_append_of_le_length hle]; exact ih)
      rwa [List.take_append_of_le_length hle] at hstep

theorem offset_add_length (h : Advance R c s out c' s') :
    c' + s'.length = c + s.length := by
  induction h with
  | refl => rfl
  | skip _ _ ih =>
      rw [ih, List.length_cons]
      omega
  | emit hv _ ih =>
      have hle := R.accept_le hv
      rw [ih, List.length_drop]
      omega

theorem suffix (h : Advance R c s out c' s') : s' <:+ s := by
  induction h with
  | refl => exact List.suffix_refl _
  | skip _ _ ih => exact ih.trans (List.suffix_cons _ _)
  | emit _ _ ih => exact ih.trans (List.drop_suffix _ _)

/-- A partial scan accounts for a first part of the whole scan. -/
theorem scan_eq (h : Advance R c s out c' s') :
    scan R c s = out ++ scan R c' s' := by
  induction h with
  | refl => rfl
  | skip hv _ ih => rw [scan_of_reject hv, ih]
  | emit hv _ ih => rw [scan_of_accept hv, ih, List.cons_append]

theorem mem_accept (h : Advance R c s out c' s') {i : Nat} {f : List α}
    (hmem : (i, f) ∈ out) :
    ∃ u, R.verdict u = .accept f.length ∧ u.take f.length = f := by
  induction h with
  | refl => simp at hmem
  | skip _ _ ih => exact ih hmem
  | @emit c s n _ _ _ hv _ ih =>
      rcases List.mem_cons.mp hmem with hhead | htail
      · obtain ⟨-, rfl⟩ := Prod.mk.inj hhead
        have hn : (s.take n).length = n := by
          rw [List.length_take, Nat.min_eq_left (R.accept_le hv)]
        exact ⟨s, by rw [hn, hv], by rw [hn]⟩
      · exact ih htail

/-- A partial scan that finds nothing has only rejected entries, so it ends at
the same place as any other scan that waits. -/
theorem scan_eq_nil_of_wait (h : Advance R c s [] c' s') (hw : R.verdict s' = .wait) :
    scan R c s = [] := by
  rw [h.scan_eq, scan_of_wait hw, List.nil_append]

end Advance

theorem advance_of_reject_prefix {p t : List α} (c : Nat)
    (h : ∀ k < p.length, R.verdict (p.drop k ++ t) = .reject) :
    Advance R c (p ++ t) [] (c + p.length) t := by
  induction p generalizing c with
  | nil => exact .refl _ _
  | cons a p ih =>
      refine .skip (by simpa using h 0 (by simp)) ?_
      have htail := ih (c + 1) fun k hk => by simpa using h (k + 1) (by simpa using hk)
      rwa [show c + (a :: p).length = c + 1 + p.length by simp; omega]

/-- Until all of a frame has arrived its start is neither rejected nor accepted. -/
theorem verdict_take_of_accept {n j : Nat} (h : R.verdict s = .accept n) (hj : j < n) :
    R.verdict (s.take j) = .wait := by
  cases hv : R.verdict (s.take j) with
  | wait => rfl
  | reject =>
      have hmore := R.reject_append hv (s.drop j)
      rw [List.take_append_drop, h] at hmore
      simp at hmore
  | accept k =>
      have hmore := R.accept_append hv (s.drop j)
      have hle := R.accept_le hv
      rw [List.take_append_drop, h, Verdict.accept.injEq] at hmore
      rw [List.length_take] at hle
      omega

theorem scan_eq_nil_of_no_accept (h : ∀ i n, R.verdict (s.drop i) ≠ .accept n) :
    scan R c s = [] := by
  induction s generalizing c with
  | nil => exact scan_of_wait R.verdict_nil c
  | cons a s ih =>
      cases hv : R.verdict (a :: s) with
      | wait => exact scan_of_wait hv c
      | reject =>
          rw [scan_of_reject hv]
          exact ih fun i n => h (i + 1) n
      | accept n => exact absurd hv (h 0 n)

end RovSdk.GreedyScan
