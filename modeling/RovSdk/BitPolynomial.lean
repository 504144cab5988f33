import Mathlib.Algebra.CharP.Two
import Mathlib.Algebra.Polynomial.FieldDivision
import Mathlib.Algebra.Field.ZMod

namespace RovSdk.BitPolynomial

open Polynomial

noncomputable def ofBits : List Bool → (ZMod 2)[X]
  | [] => 0
  | b :: bs => (if b then X ^ bs.length else 0) + ofBits bs

@[simp] theorem ofBits_nil : ofBits [] = 0 := rfl

@[simp] theorem ofBits_false (bs : List Bool) : ofBits (false :: bs) = ofBits bs := by
  simp [ofBits]

@[simp] theorem ofBits_true (bs : List Bool) :
    ofBits (true :: bs) = X ^ bs.length + ofBits bs := by
  simp [ofBits]

theorem ofBits_append (bs cs : List Bool) :
    ofBits (bs ++ cs) = ofBits bs * X ^ cs.length + ofBits cs := by
  induction bs with
  | nil => simp
  | cons b bs ih =>
      cases b with
      | false => simp [ih]
      | true =>
          rw [List.cons_append, ofBits_true, ofBits_true, ih, List.length_append, pow_add]
          ring

theorem degree_ofBits_lt (bs : List Bool) : (ofBits bs).degree < bs.length := by
  induction bs with
  | nil => simp
  | cons b bs ih =>
      have hgrow : ((bs.length : ℕ) : WithBot ℕ) < (b :: bs).length := by
        exact_mod_cast Nat.lt_succ_self _
      cases b with
      | false => simpa using ih.trans hgrow
      | true =>
          rw [ofBits_true]
          refine (degree_add_le _ _).trans_lt (max_lt ?_ (ih.trans hgrow))
          rwa [degree_X_pow]

theorem ofBits_zipWith_xor {bs cs : List Bool} (h : bs.length = cs.length) :
    ofBits (bs.zipWith xor cs) = ofBits bs + ofBits cs := by
  induction bs generalizing cs with
  | nil =>
      obtain rfl := List.length_eq_zero_iff.mp h.symm
      simp
  | cons b bs ih =>
      obtain ⟨c, cs, rfl⟩ := List.exists_cons_of_length_eq_add_one h.symm
      have hlen : bs.length = cs.length := by simpa using h
      have hzip : (bs.zipWith xor cs).length = cs.length := by simp [hlen]
      rw [List.zipWith_cons_cons]
      cases b <;> cases c <;> simp only [Bool.xor_false, Bool.xor_true, Bool.not_false,
        Bool.not_true, ofBits_false, ofBits_true, ih hlen, hzip, hlen]
      · ring
      · ring
      · rw [add_add_add_comm, CharTwo.add_self_eq_zero, zero_add]

theorem ofBits_eq_zero_iff {bs : List Bool} : ofBits bs = 0 ↔ true ∉ bs := by
  induction bs with
  | nil => simp
  | cons b bs ih =>
      cases b with
      | false => simpa using ih
      | true =>
          have hdegree : (ofBits (true :: bs)).degree = bs.length := by
            rw [ofBits_true, degree_add_eq_left_of_degree_lt, degree_X_pow]
            rw [degree_X_pow]
            exact degree_ofBits_lt bs
          refine iff_of_false (fun h => ?_) (by simp)
          rw [h, degree_zero] at hdegree
          exact absurd hdegree.symm (WithBot.natCast_ne_bot _)

theorem ofBits_injective_of_length {bs cs : List Bool} (hlen : bs.length = cs.length)
    (h : ofBits bs = ofBits cs) : bs = cs := by
  have hzero : ofBits (bs.zipWith xor cs) = 0 := by
    rw [ofBits_zipWith_xor hlen, h, CharTwo.add_self_eq_zero]
  rw [ofBits_eq_zero_iff] at hzero
  refine List.ext_getElem hlen fun i hb hc => ?_
  by_contra hne
  refine hzero (List.mem_iff_getElem.mpr ⟨i, by simp [hb, hc], ?_⟩)
  rw [List.getElem_zipWith]
  revert hne
  cases bs[i] <;> cases cs[i] <;> simp

theorem eval_one_ofBits (bs : List Bool) : (ofBits bs).eval 1 = (bs.count true : ZMod 2) := by
  induction bs with
  | nil => simp
  | cons b bs ih =>
      cases b with
      | false => simpa using ih
      | true => simp [ih, add_comm]

theorem ofBits_of_count_eq_one {bs : List Bool} (h : bs.count true = 1) :
    ∃ d < bs.length, ofBits bs = X ^ d := by
  induction bs with
  | nil => simp at h
  | cons b bs ih =>
      cases b with
      | false =>
          obtain ⟨d, hd, hbs⟩ := ih (by simpa using h)
          exact ⟨d, by simp; omega, by simpa using hbs⟩
      | true =>
          have hrest : ofBits bs = 0 :=
            ofBits_eq_zero_iff.mpr (List.count_eq_zero.mp (by simpa using h))
          exact ⟨bs.length, by simp, by simp [hrest]⟩

/-- Two set bits: a power of `X` times `X ^ k + 1`, with `k` their distance. -/
theorem ofBits_of_count_eq_two {bs : List Bool} (h : bs.count true = 2) :
    ∃ d k, 0 < k ∧ k < bs.length ∧ ofBits bs = X ^ d * (X ^ k + 1) := by
  induction bs with
  | nil => simp at h
  | cons b bs ih =>
      cases b with
      | false =>
          obtain ⟨d, k, hk, hlt, hbs⟩ := ih (by simpa using h)
          exact ⟨d, k, hk, by simp; omega, by simpa using hbs⟩
      | true =>
          have hone : bs.count true = 1 := by simpa using h
          obtain ⟨d, hd, hbs⟩ := ofBits_of_count_eq_one hone
          refine ⟨d, bs.length - d, by omega, by rw [List.length_cons]; omega, ?_⟩
          rw [ofBits_true, hbs, mul_add, ← pow_add, mul_one, Nat.add_sub_cancel' hd.le]

/-- Set bits within a window of `w` positions: a power of `X` times a polynomial of
degree less than `w`. -/
theorem ofBits_of_window {bs : List Bool} {i w : Nat}
    (h : ∀ j, bs[j]? = some true → i ≤ j ∧ j < i + w) :
    ∃ (d : Nat) (q : (ZMod 2)[X]), q.degree < w ∧ ofBits bs = X ^ d * q := by
  have hsplit : bs = bs.take i ++ ((bs.drop i).take w ++ (bs.drop i).drop w) := by
    rw [List.take_append_drop, List.take_append_drop]
  have hbefore : ofBits (bs.take i) = 0 := by
    rw [ofBits_eq_zero_iff, List.mem_iff_getElem?]
    rintro ⟨j, hj⟩
    rw [List.getElem?_take] at hj
    split_ifs at hj with hlt
    have hwindow := h j hj
    omega
  have hafter : ofBits ((bs.drop i).drop w) = 0 := by
    rw [ofBits_eq_zero_iff, List.mem_iff_getElem?]
    rintro ⟨j, hj⟩
    rw [List.getElem?_drop, List.getElem?_drop] at hj
    have hwindow := h _ hj
    omega
  refine ⟨((bs.drop i).drop w).length, ofBits ((bs.drop i).take w), ?_, ?_⟩
  · refine (degree_ofBits_lt _).trans_le ?_
    exact_mod_cast List.length_take_le _ _
  · conv_lhs => rw [hsplit]
    rw [ofBits_append, ofBits_append, hbefore, hafter, zero_mul, zero_add, add_zero,
      mul_comm]

section Detection

variable {g : (ZMod 2)[X]} {bs : List Bool}

theorem not_dvd_of_odd (hg : g.eval 1 = 0) (h : Odd (bs.count true)) :
    ¬g ∣ ofBits bs := by
  rintro ⟨q, hq⟩
  have heval := eval_one_ofBits bs
  rw [hq, eval_mul, hg, zero_mul] at heval
  rw [eq_comm, ZMod.natCast_eq_zero_iff_even] at heval
  exact Nat.not_even_iff_odd.mpr h heval

theorem not_dvd_of_count_eq_two (hX : IsCoprime g X)
    (horder : ∀ k, 0 < k → k < bs.length → ¬g ∣ X ^ k + 1) (h : bs.count true = 2) :
    ¬g ∣ ofBits bs := by
  obtain ⟨d, k, hk, hlt, hbs⟩ := ofBits_of_count_eq_two h
  rw [hbs]
  exact fun hdvd => horder k hk hlt (hX.pow_right.dvd_of_dvd_mul_left hdvd)

theorem not_dvd_of_window (hX : IsCoprime g X) {i w : Nat} (hw : w ≤ g.degree)
    (hset : true ∈ bs) (h : ∀ j, bs[j]? = some true → i ≤ j ∧ j < i + w) :
    ¬g ∣ ofBits bs := by
  obtain ⟨d, q, hq, hbs⟩ := ofBits_of_window h
  intro hdvd
  rw [hbs] at hdvd
  have hzero : q = 0 :=
    eq_zero_of_dvd_of_degree_lt (hX.pow_right.dvd_of_dvd_mul_left hdvd) (hq.trans_le hw)
  rw [hzero, mul_zero, ofBits_eq_zero_iff] at hbs
  exact hbs hset

end Detection

end RovSdk.BitPolynomial
