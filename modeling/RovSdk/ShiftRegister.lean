import Mathlib.RingTheory.AdjoinRoot
import RovSdk.BitPolynomial

/-!
Linear feedback shift registers.  A register is its bits, the bit that leaves it
first at the head.  Read as a polynomial it is multiplied by `X` at each shift, modulo
the generator, so absorbing a message chunk by chunk computes a remainder.
-/

namespace RovSdk.ShiftRegister

open Polynomial
open RovSdk.BitPolynomial

variable (taps : List Bool)

noncomputable def generator : (ZMod 2)[X] := X ^ taps.length + ofBits taps

/-- Shift by one place; a set bit that leaves the register feeds the taps. -/
def shift : List Bool → List Bool
  | [] => []
  | b :: r => if b then (r ++ [false]).zipWith xor taps else r ++ [false]

/-- Add a chunk of the message to the front of the register and shift it out. -/
def absorb (r chunk : List Bool) : List Bool :=
  (shift taps)^[chunk.length]
    (r.zipWith xor (chunk ++ List.replicate (r.length - chunk.length) false))

def unitRegister : List Bool := List.replicate (taps.length - 1) false ++ [true]

theorem degree_generator : (generator taps).degree = taps.length := by
  rw [generator, degree_add_eq_left_of_degree_lt, degree_X_pow]
  rw [degree_X_pow]
  exact degree_ofBits_lt taps

theorem monic_generator : (generator taps).Monic :=
  monic_X_pow_add (degree_ofBits_lt taps)

theorem eval_one_generator : (generator taps).eval 1 = 1 + (taps.count true : ZMod 2) := by
  rw [generator, eval_add, eval_one_ofBits]
  simp

theorem isCoprime_generator_X (ts : List Bool) : IsCoprime (generator (ts ++ [true])) X := by
  refine ⟨1, -(X ^ ts.length + ofBits ts), ?_⟩
  rw [generator, ofBits_append]
  simp only [List.length_append, List.length_singleton, ofBits_true, List.length_nil,
    pow_zero, ofBits_nil, pow_one]
  ring

theorem mk_add_self (p : (ZMod 2)[X]) :
    AdjoinRoot.mk (generator taps) p + AdjoinRoot.mk (generator taps) p = 0 := by
  rw [← map_add, CharTwo.add_self_eq_zero, map_zero]

variable {taps}

theorem mk_ofBits_taps :
    AdjoinRoot.mk (generator taps) (ofBits taps) =
      AdjoinRoot.root (generator taps) ^ taps.length := by
  have hzero := mk_add_self taps (ofBits taps)
  have hself : AdjoinRoot.mk (generator taps) (X ^ taps.length + ofBits taps) = 0 :=
    AdjoinRoot.mk_self
  rw [map_add, map_pow, AdjoinRoot.mk_X] at hself
  exact add_right_cancel (hzero.trans hself.symm)

theorem length_shift {r : List Bool} (h : r.length = taps.length) :
    (shift taps r).length = taps.length := by
  cases r with
  | nil => exact h
  | cons b r =>
      simp only [List.length_cons] at h
      cases b <;> simp [shift, h]

theorem mk_shift {r : List Bool} (h : r.length = taps.length) :
    AdjoinRoot.mk (generator taps) (ofBits (shift taps r)) =
      AdjoinRoot.root (generator taps) * AdjoinRoot.mk (generator taps) (ofBits r) := by
  cases r with
  | nil => simp [shift]
  | cons b r =>
      have hlen : (r ++ [false]).length = taps.length := by simpa using h
      have hshifted : ofBits (r ++ [false]) = ofBits r * X := by simp [ofBits_append]
      cases b with
      | false =>
          rw [shift, if_neg (by simp), hshifted, ofBits_false, map_mul, AdjoinRoot.mk_X,
            mul_comm]
      | true =>
          rw [shift, if_pos rfl, ofBits_zipWith_xor hlen, hshifted, ofBits_true, map_add,
            mk_ofBits_taps, ← h, map_mul, AdjoinRoot.mk_X, map_add, map_pow,
            AdjoinRoot.mk_X, List.length_cons]
          ring

theorem length_iterate_shift {r : List Bool} (h : r.length = taps.length) (n : Nat) :
    ((shift taps)^[n] r).length = taps.length := by
  induction n with
  | zero => exact h
  | succ n ih =>
      rw [Function.iterate_succ_apply']
      exact length_shift ih

theorem mk_iterate_shift {r : List Bool} (h : r.length = taps.length) (n : Nat) :
    AdjoinRoot.mk (generator taps) (ofBits ((shift taps)^[n] r)) =
      AdjoinRoot.root (generator taps) ^ n * AdjoinRoot.mk (generator taps) (ofBits r) := by
  induction n with
  | zero => simp
  | succ n ih =>
      rw [Function.iterate_succ_apply', mk_shift (length_iterate_shift h n), ih, pow_succ]
      ring

theorem length_absorb {r chunk : List Bool} (h : r.length = taps.length)
    (hchunk : chunk.length ≤ taps.length) : (absorb taps r chunk).length = taps.length := by
  refine length_iterate_shift ?_ _
  rw [List.length_zipWith, List.length_append, List.length_replicate]
  omega

/-- Absorbing `n` bits multiplies the register by `X ^ n` and adds the bits above the
register's width. -/
theorem mk_absorb {r chunk : List Bool} (h : r.length = taps.length)
    (hchunk : chunk.length ≤ taps.length) :
    AdjoinRoot.mk (generator taps) (ofBits (absorb taps r chunk)) =
      AdjoinRoot.root (generator taps) ^ chunk.length *
          AdjoinRoot.mk (generator taps) (ofBits r) +
        AdjoinRoot.root (generator taps) ^ taps.length *
          AdjoinRoot.mk (generator taps) (ofBits chunk) := by
  have hlen : r.length =
      (chunk ++ List.replicate (r.length - chunk.length) false).length := by
    rw [List.length_append, List.length_replicate]
    omega
  have hpad : ofBits (List.replicate (r.length - chunk.length) false) = 0 :=
    ofBits_eq_zero_iff.mpr (by simp)
  rw [absorb, mk_iterate_shift (by rw [List.length_zipWith, ← hlen, min_self, h]),
    ofBits_zipWith_xor hlen, ofBits_append, hpad, add_zero, List.length_replicate, map_add,
    map_mul, map_pow, AdjoinRoot.mk_X, mul_add, h]
  congr 1
  rw [mul_left_comm, ← pow_add, Nat.add_sub_cancel' hchunk, mul_comm]

theorem length_foldl_absorb {r : List Bool} {chunks : List (List Bool)}
    (h : r.length = taps.length) (hchunks : ∀ chunk ∈ chunks, chunk.length ≤ taps.length) :
    (chunks.foldl (absorb taps) r).length = taps.length := by
  induction chunks generalizing r with
  | nil => exact h
  | cons chunk chunks ih =>
      obtain ⟨hchunk, hrest⟩ := List.forall_mem_cons.mp hchunks
      exact ih (length_absorb h hchunk) hrest

theorem mk_foldl_absorb {r : List Bool} {chunks : List (List Bool)}
    (h : r.length = taps.length) (hchunks : ∀ chunk ∈ chunks, chunk.length ≤ taps.length) :
    AdjoinRoot.mk (generator taps) (ofBits (chunks.foldl (absorb taps) r)) =
      AdjoinRoot.root (generator taps) ^ chunks.flatten.length *
          AdjoinRoot.mk (generator taps) (ofBits r) +
        AdjoinRoot.root (generator taps) ^ taps.length *
          AdjoinRoot.mk (generator taps) (ofBits chunks.flatten) := by
  induction chunks generalizing r with
  | nil => simp
  | cons chunk chunks ih =>
      obtain ⟨hchunk, hrest⟩ := List.forall_mem_cons.mp hchunks
      rw [List.foldl_cons, ih (length_absorb h hchunk) hrest, mk_absorb h hchunk,
        List.flatten_cons, ofBits_append, List.length_append, map_add, map_mul, map_pow,
        AdjoinRoot.mk_X]
      ring

/-- The register after a message, as the remainder of a division. -/
theorem ofBits_foldl_absorb {r : List Bool} {chunks : List (List Bool)}
    (h : r.length = taps.length) (hchunks : ∀ chunk ∈ chunks, chunk.length ≤ taps.length) :
    ofBits (chunks.foldl (absorb taps) r) =
      (ofBits chunks.flatten * X ^ taps.length + ofBits r * X ^ chunks.flatten.length) %ₘ
        generator taps := by
  have hlen := length_foldl_absorb h hchunks
  have hsmall : (ofBits (chunks.foldl (absorb taps) r)).degree < (generator taps).degree := by
    rw [degree_generator, ← hlen]
    exact degree_ofBits_lt _
  rw [← (modByMonic_eq_self_iff (monic_generator taps)).mpr hsmall]
  apply modByMonic_eq_of_dvd_sub (monic_generator taps)
  rw [← AdjoinRoot.mk_eq_mk, mk_foldl_absorb h hchunks]
  simp only [map_add, map_mul, map_pow, AdjoinRoot.mk_X]
  ring

/-- A message followed by its register leaves the register empty. -/
theorem true_notMem_foldl_absorb {r : List Bool} {chunks tail : List (List Bool)}
    (h : r.length = taps.length) (hchunks : ∀ chunk ∈ chunks ++ tail, chunk.length ≤ taps.length)
    (htail : tail.flatten = chunks.foldl (absorb taps) r) :
    true ∉ (chunks ++ tail).foldl (absorb taps) r := by
  obtain ⟨hfront, hback⟩ := List.forall_mem_append.mp hchunks
  have hregister := length_foldl_absorb h hfront
  rw [← ofBits_eq_zero_iff, List.foldl_append, ofBits_foldl_absorb hregister hback, htail,
    hregister, CharTwo.add_self_eq_zero, zero_modByMonic]

/-- A message followed by its register: what is left does not depend on the message. -/
theorem mk_codeword {r : List Bool} {chunks : List (List Bool)}
    (h : r.length = taps.length) (hchunks : ∀ chunk ∈ chunks, chunk.length ≤ taps.length) :
    AdjoinRoot.mk (generator taps)
        (ofBits (chunks.flatten ++ chunks.foldl (absorb taps) r)) =
      AdjoinRoot.root (generator taps) ^ chunks.flatten.length *
        AdjoinRoot.mk (generator taps) (ofBits r) := by
  have hself := mk_add_self taps (ofBits chunks.flatten * X ^ taps.length)
  rw [map_mul, map_pow, AdjoinRoot.mk_X] at hself
  rw [ofBits_append, length_foldl_absorb h hchunks, map_add, mk_foldl_absorb h hchunks,
    map_mul, map_pow, AdjoinRoot.mk_X]
  linear_combination hself

theorem generator_dvd_codeword_xor {r : List Bool} {chunks chunks' : List (List Bool)}
    (h : r.length = taps.length) (hchunks : ∀ chunk ∈ chunks, chunk.length ≤ taps.length)
    (hchunks' : ∀ chunk ∈ chunks', chunk.length ≤ taps.length)
    (hlen : chunks.flatten.length = chunks'.flatten.length) :
    generator taps ∣ ofBits ((chunks.flatten ++ chunks.foldl (absorb taps) r).zipWith xor
      (chunks'.flatten ++ chunks'.foldl (absorb taps) r)) := by
  rw [← AdjoinRoot.mk_eq_zero, ofBits_zipWith_xor (by
    rw [List.length_append, List.length_append, hlen, length_foldl_absorb h hchunks,
      length_foldl_absorb h hchunks']), map_add, mk_codeword h hchunks,
    mk_codeword h hchunks', hlen, ← AdjoinRoot.mk_X, ← map_pow, ← map_mul]
  exact mk_add_self _ _

/-- The generator does not divide `X ^ k + 1` unless `k` shifts bring the register of the
polynomial 1 back. -/
theorem not_generator_dvd_of_iterate_ne (hw : 0 < taps.length) {k : Nat}
    (h : (shift taps)^[k] (unitRegister taps) ≠ unitRegister taps) :
    ¬generator taps ∣ X ^ k + 1 := by
  intro hdvd
  have hlen : (unitRegister taps).length = taps.length := by
    rw [unitRegister, List.length_append, List.length_replicate, List.length_singleton]
    omega
  have hone : ofBits (unitRegister taps) = 1 := by
    rw [unitRegister, ofBits_append, ofBits_eq_zero_iff.mpr (by simp)]
    simp
  have hiterate := length_iterate_shift hlen k
  have hpow : generator taps ∣
      ofBits ((shift taps)^[k] (unitRegister taps)) + ofBits (unitRegister taps) := by
    rw [← AdjoinRoot.mk_eq_zero] at hdvd ⊢
    rw [map_add, mk_iterate_shift hlen, hone, map_one, mul_one]
    rwa [map_add, map_pow, AdjoinRoot.mk_X, map_one] at hdvd
  rw [← ofBits_zipWith_xor (hiterate.trans hlen.symm)] at hpow
  have hzero := eq_zero_of_dvd_of_degree_lt hpow (by
    rw [degree_generator]
    refine (degree_ofBits_lt _).trans_le ?_
    rw [List.length_zipWith, hiterate, hlen, min_self])
  rw [ofBits_zipWith_xor (hiterate.trans hlen.symm), CharTwo.add_eq_zero] at hzero
  exact h (ofBits_injective_of_length (hiterate.trans hlen.symm) hzero)

end RovSdk.ShiftRegister
