import Mathlib.Data.List.Count
import Mathlib.Tactic.Common

/-!
The use of handles by an owner of at most one.  A trace of calls keeps to a handle from
when it is acquired to when it is released; a trace that ends without a handle has
released each one as often as it was acquired, and used none in between.
-/

namespace RovSdk.HandleUse

variable {H : Type*}

inductive HandleEvent (H : Type*) where
  | acquire (h : H)
  | use (h : H)
  | release (h : H)
  deriving DecidableEq, Repr

/-- From one handle held, or none, to the next. -/
inductive Keeps : Option H → List (HandleEvent H) → Option H → Prop
  | nil (held : Option H) : Keeps held [] held
  | acquire {h : H} {es : List (HandleEvent H)} {held' : Option H} :
      Keeps (some h) es held' → Keeps none (.acquire h :: es) held'
  | use {h : H} {es : List (HandleEvent H)} {held' : Option H} :
      Keeps (some h) es held' → Keeps (some h) (.use h :: es) held'
  | release {h : H} {es : List (HandleEvent H)} {held' : Option H} :
      Keeps none es held' → Keeps (some h) (.release h :: es) held'

variable {held held' held'' : Option H} {es es' : List (HandleEvent H)}

theorem Keeps.append (h : Keeps held es held') (h' : Keeps held' es' held'') :
    Keeps held (es ++ es') held'' := by
  induction h with
  | nil => exact h'
  | acquire _ ih => exact .acquire (ih h')
  | use _ ih => exact .use (ih h')
  | release _ ih => exact .release (ih h')

theorem Keeps.split (h : Keeps held (es ++ es') held'') :
    ∃ held', Keeps held es held' ∧ Keeps held' es' held'' := by
  induction es generalizing held with
  | nil => exact ⟨held, .nil held, h⟩
  | cons e es ih =>
      cases h with
      | acquire h =>
          obtain ⟨held', hfirst, hrest⟩ := ih h
          exact ⟨held', .acquire hfirst, hrest⟩
      | use h =>
          obtain ⟨held', hfirst, hrest⟩ := ih h
          exact ⟨held', .use hfirst, hrest⟩
      | release h =>
          obtain ⟨held', hfirst, hrest⟩ := ih h
          exact ⟨held', .release hfirst, hrest⟩

section Run

variable {S C : Type*}

def trace (step : S → C → S) (events : S → C → List (HandleEvent H)) :
    S → List C → List (HandleEvent H)
  | _, [] => []
  | s, c :: cs => events s c ++ trace step events (step s c) cs

/-- A run keeps to its handles where each call does so and keeps an invariant. -/
theorem keeps_trace (Inv : S → Prop) (holds : S → Option H) {step : S → C → S}
    {events : S → C → List (HandleEvent H)}
    (hstep : ∀ s c, Inv s → Inv (step s c) ∧ Keeps (holds s) (events s c) (holds (step s c)))
    {s : S} (hs : Inv s) (cs : List C) :
    Inv (cs.foldl step s) ∧
      Keeps (holds s) (trace step events s cs) (holds (cs.foldl step s)) := by
  induction cs generalizing s with
  | nil => exact ⟨hs, .nil _⟩
  | cons c cs ih =>
      obtain ⟨hinv, hcall⟩ := hstep s c hs
      obtain ⟨hend, hrest⟩ := ih hinv
      exact ⟨hend, hcall.append hrest⟩

end Run

variable [DecidableEq H]

def holding (held : Option H) (x : H) : Nat := if held = some x then 1 else 0

theorem Keeps.count (h : Keeps held es held') (x : H) :
    holding held x + es.count (.acquire x) = holding held' x + es.count (.release x) := by
  induction h with
  | nil => rfl
  | @acquire h es held' _ ih =>
      rw [List.count_cons, List.count_cons_of_ne (by simp), ← ih]
      simp only [holding, beq_iff_eq, HandleEvent.acquire.injEq, Option.some.injEq, reduceCtorEq,
        if_false]
      omega
  | use _ ih => rw [List.count_cons_of_ne (by simp), List.count_cons_of_ne (by simp), ih]
  | @release h es held' _ ih =>
      rw [List.count_cons_of_ne (by simp), List.count_cons]
      simp only [holding, beq_iff_eq, HandleEvent.release.injEq, Option.some.injEq, reduceCtorEq,
        if_false] at ih ⊢
      omega

/-- Every handle is released as often as it is acquired, and at each use and each release
it has been acquired once more than released. -/
structure Balanced (es : List (HandleEvent H)) : Prop where
  released : ∀ x, es.count (.acquire x) = es.count (.release x)
  used : ∀ pre x, pre ++ [.use x] <+: es →
    pre.count (.acquire x) = pre.count (.release x) + 1
  held : ∀ pre x, pre ++ [.release x] <+: es →
    pre.count (.acquire x) = pre.count (.release x) + 1

theorem count_eq_succ_of_held {x : H} (h : Keeps none es (some x)) :
    es.count (.acquire x) = es.count (.release x) + 1 := by
  have hcount := h.count x
  simp only [holding, if_true, reduceCtorEq, if_false] at hcount
  omega

theorem Keeps.balanced (h : Keeps none es none) : Balanced es := by
  refine ⟨fun x => by simpa using h.count x, ?_, ?_⟩
  · rintro pre x ⟨rest, rfl⟩
    rw [List.append_assoc] at h
    obtain ⟨held, hpre, hrest⟩ := h.split
    cases hrest with
    | use => exact count_eq_succ_of_held hpre
  · rintro pre x ⟨rest, rfl⟩
    rw [List.append_assoc] at h
    obtain ⟨held, hpre, hrest⟩ := h.split
    cases hrest with
    | release => exact count_eq_succ_of_held hpre

end RovSdk.HandleUse
