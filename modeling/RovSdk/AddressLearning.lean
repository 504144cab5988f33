import Mathlib.Data.Set.Defs
import Mathlib.Logic.Function.Basic
import Mathlib.Logic.Relation

namespace RovSdk.AddressLearning

variable {N A : Type*}

/-- The peer of each endpoint, the addresses it has been given, and the messages sent, each
as its source and its destination. -/
structure World (N A : Type*) where
  peer : N → Option A := fun _ => none
  given : N → List A := fun _ => []
  sent : List (A × A) := []

section Step

variable [DecidableEq N]

def World.give (w : World N A) (n : N) (target : A) : World N A :=
  { w with
    peer := Function.update w.peer n (some target)
    given := Function.update w.given n (w.given n ++ [target]) }

def World.send (w : World N A) (source target : A) : World N A :=
  { w with sent := w.sent ++ [(source, target)] }

def World.hear (w : World N A) (n : N) (source : A) : World N A :=
  { w with peer := Function.update w.peer n (some source) }

/-- A message may be heard late, repeatedly or never, but only at the address that it was
sent to. -/
inductive Step (address : N → A) : World N A → World N A → Prop
  | give (w : World N A) (n : N) (target : A) : Step address w (w.give n target)
  | send (w : World N A) {n : N} {target : A} : w.peer n = some target →
      Step address w (w.send (address n) target)
  | hear (w : World N A) {n : N} {source : A} : (source, address n) ∈ w.sent →
      Step address w (w.hear n source)

end Step

/-- The endpoint with one of the two addresses has been given the other. -/
def Introduced (address : N → A) (w : World N A) (a b : A) : Prop :=
  (∃ n, address n = a ∧ b ∈ w.given n) ∨ ∃ n, address n = b ∧ a ∈ w.given n

variable {address : N → A} {w w' : World N A} {a b : A}

theorem Introduced.symm (h : Introduced address w a b) : Introduced address w b a := Or.symm h

theorem Introduced.mono (h : Introduced address w a b)
    (hgiven : ∀ n, w.given n ⊆ w'.given n) : Introduced address w' a b := by
  rcases h with ⟨n, hn, hmem⟩ | ⟨n, hn, hmem⟩
  · exact .inl ⟨n, hn, hgiven n hmem⟩
  · exact .inr ⟨n, hn, hgiven n hmem⟩

/-- Every endpoint has been given addresses on its own side only. -/
def Separates (address : N → A) (w : World N A) (group : Set A) : Prop :=
  ∀ n, ∀ target ∈ w.given n, address n ∈ group ↔ target ∈ group

theorem Introduced.mem_iff {group : Set A} (h : Introduced address w a b)
    (hgroup : Separates address w group) : a ∈ group ↔ b ∈ group := by
  rcases h with ⟨n, rfl, hmem⟩ | ⟨n, rfl, hmem⟩
  · exact hgroup n b hmem
  · exact (hgroup n a hmem).symm

structure Introducing (address : N → A) (w : World N A) : Prop where
  peer : ∀ n target, w.peer n = some target → Introduced address w (address n) target
  sent : ∀ m ∈ w.sent, Introduced address w m.1 m.2

theorem introducing_start : Introducing address ({} : World N A) := ⟨by simp, by simp⟩

variable [DecidableEq N]

theorem given_subset_give (w : World N A) (n : N) (target : A) (k : N) :
    w.given k ⊆ (w.give n target).given k := by
  intro x hx
  rcases eq_or_ne k n with rfl | hne
  · simpa [World.give] using .inl hx
  · simpa [World.give, hne] using hx

theorem mem_given_give (w : World N A) (n : N) (target : A) :
    target ∈ (w.give n target).given n := by
  simp [World.give]

theorem Introducing.step (h : Introducing address w) (hstep : Step address w w') :
    Introducing address w' := by
  cases hstep with
  | give n target =>
      have hgiven := given_subset_give w n target
      refine ⟨fun k t hk => ?_, fun m hm => (h.sent m hm).mono hgiven⟩
      rcases eq_or_ne k n with rfl | hne
      · obtain rfl : target = t := by simpa [World.give] using hk
        exact .inl ⟨k, rfl, mem_given_give w k target⟩
      · exact (h.peer k t (by simpa [World.give, hne] using hk)).mono hgiven
  | send hpeer =>
      refine ⟨h.peer, fun m hm => ?_⟩
      rcases List.mem_append.mp hm with hm | hm
      · exact h.sent m hm
      · obtain rfl := List.mem_singleton.mp hm
        exact h.peer _ _ hpeer
  | @hear n source hmem =>
      refine ⟨fun k t hk => ?_, h.sent⟩
      rcases eq_or_ne k n with rfl | hne
      · obtain rfl : source = t := by simpa [World.hear] using hk
        -- the answer goes back along the message that was heard
        exact (h.sent _ hmem).symm
      · exact h.peer k t (by simpa [World.hear, hne] using hk)

theorem introducing_of_reachable (h : Relation.ReflTransGen (Step address) {} w) :
    Introducing address w := by
  induction h with
  | refl => exact introducing_start
  | tail _ hstep ih => exact ih.step hstep

end RovSdk.AddressLearning
