import Mathlib.Data.List.Forall2

namespace RovSdk.Results

variable {ε ε' α β : Type}

theorem ok_bind (a : α) (f : α → Except ε β) : (Except.ok a >>= f) = f a := rfl

theorem bind_eq_ok {x : Except ε α} {f : α → Except ε β} {b : β} :
    (x >>= f) = .ok b ↔ ∃ a, x = .ok a ∧ f a = .ok b := by
  cases x <;> simp [bind, Except.bind]

theorem pure_eq_ok {a b : α} : (pure a : Except ε α) = .ok b ↔ a = b := by
  simp [pure, Except.pure]

theorem throw_bind (e : ε) (f : α → Except ε β) :
    ((throw e : Except ε α) >>= f) = throw e := rfl

theorem throw_ne_ok {e : ε} {a : α} : (throw e : Except ε α) ≠ .ok a := by
  simp [throw, throwThe, MonadExceptOf.throw]

theorem mapError_eq_ok {x : Except ε α} {f : ε → ε'} {a : α} :
    x.mapError f = .ok a ↔ x = .ok a := by
  cases x <;> simp [Except.mapError]

theorem throw_if_eq_ok {p : Prop} [Decidable p] {e : ε} {f : Except ε α} {a : α} :
    (if p then throw e else f) = .ok a ↔ ¬p ∧ f = .ok a := by
  by_cases hp : p
  · rw [if_pos hp]
    exact iff_of_false throw_ne_ok (fun h => h.1 hp)
  · rw [if_neg hp]
    simp [hp]

theorem forM_eq_ok {f : α → Except ε Unit} {xs : List α} :
    xs.forM f = .ok () ↔ ∀ x ∈ xs, f x = .ok () := by
  induction xs with
  | nil => simp [pure_eq_ok]
  | cons x xs ih =>
      rw [show (x :: xs).forM f = f x >>= fun _ => xs.forM f from rfl, bind_eq_ok,
        List.forall_mem_cons, ← ih]
      exact ⟨fun ⟨_, hx, hxs⟩ => ⟨hx, hxs⟩, fun ⟨hx, hxs⟩ => ⟨(), hx, hxs⟩⟩

theorem mapM_eq_ok {f : α → Except ε β} {xs : List α} {ys : List β} :
    xs.mapM f = .ok ys ↔ List.Forall₂ (fun x y => f x = .ok y) xs ys := by
  induction xs generalizing ys with
  | nil =>
      rw [List.mapM_nil, pure_eq_ok, List.forall₂_nil_left_iff]
      exact eq_comm
  | cons x xs ih =>
      simp only [List.mapM_cons, bind_eq_ok, pure_eq_ok, ih]
      constructor
      · rintro ⟨y, hx, ys, hxs, rfl⟩
        exact .cons hx hxs
      · rintro (_ | ⟨hx, hxs⟩)
        exact ⟨_, hx, _, hxs, rfl⟩

theorem exists_of_mem_left {R : α → β → Prop} {xs : List α} {ys : List β}
    (h : List.Forall₂ R xs ys) {x : α} (hx : x ∈ xs) : ∃ y ∈ ys, R x y := by
  induction h with
  | nil => cases hx
  | @cons x' y xs ys hxy _ ih =>
      rcases List.mem_cons.mp hx with rfl | hx
      · exact ⟨y, List.mem_cons_self, hxy⟩
      · obtain ⟨z, hz, hxz⟩ := ih hx
        exact ⟨z, List.mem_cons_of_mem y hz, hxz⟩

theorem exists_of_mem_right {R : α → β → Prop} {xs : List α} {ys : List β}
    (h : List.Forall₂ R xs ys) {y : β} (hy : y ∈ ys) : ∃ x ∈ xs, R x y :=
  exists_of_mem_left (R := fun y x => R x y) h.flip hy

/-- The computation returns. -/
def Returns (x : Except ε α) : Prop := ∃ a, x = .ok a

theorem exists_eq_ok {x : Except ε α} : (∃ a, x = .ok a) ↔ Returns x := Iff.rfl

theorem returns_ok (a : α) : Returns (Except.ok a : Except ε α) := ⟨a, rfl⟩

theorem returns_pure (a : α) : Returns (pure a : Except ε α) := ⟨a, rfl⟩

theorem returns_bind {x : Except ε α} {f : α → Except ε β} :
    Returns (x >>= f) ↔ ∃ a, x = .ok a ∧ Returns (f a) := by
  cases x <;> simp [Returns, bind, Except.bind]

theorem returns_mapM {f : α → Except ε β} {xs : List α} :
    Returns (xs.mapM f) ↔ ∀ x ∈ xs, Returns (f x) := by
  induction xs with
  | nil => exact iff_of_true (returns_pure []) (by simp)
  | cons x xs ih =>
      rw [List.mapM_cons, returns_bind, List.forall_mem_cons, ← ih]
      constructor
      · rintro ⟨y, hx, hxs⟩
        obtain ⟨ys, hys, -⟩ := returns_bind.mp hxs
        exact ⟨⟨y, hx⟩, ys, hys⟩
      · rintro ⟨⟨y, hx⟩, ys, hxs⟩
        exact ⟨y, hx, returns_bind.mpr ⟨ys, hxs, returns_pure _⟩⟩

end RovSdk.Results
