/-
# The last time that something happened

A history is a list of events, the oldest first. This module says where a property of events
held for the last time, compares two properties by these places, and says how a new event
changes the comparison.
-/

import Mathlib.Data.List.Pairwise
import Mathlib.Tactic.Common

namespace Library

universe u

variable {α : Type u}

/-- The last event with a property is the one at the place. -/
structure LastAt (property : α → Prop) (history : List α) (place : ℕ) : Prop where
  holds : ∃ event, history[place]? = some event ∧ property event
  last : ∀ later event, place < later → history[later]? = some event → ¬ property event

/-- Both properties occurred, and the first one for the last time before the second. -/
def LastBefore (first second : α → Prop) (history : List α) : Prop :=
  ∃ earlier later, LastAt first history earlier ∧ LastAt second history later ∧ earlier < later

variable {property first second : α → Prop} {history : List α} {place : ℕ} {event : α}

theorem LastAt.lt_length (h : LastAt property history place) : place < history.length := by
  obtain ⟨event, hevent, -⟩ := h.holds
  exact (List.getElem?_eq_some_iff.mp hevent).1

theorem LastAt.unique {other : ℕ} (h : LastAt property history place)
    (hother : LastAt property history other) : place = other := by
  obtain ⟨event, hevent, hholds⟩ := h.holds
  obtain ⟨event', hevent', hholds'⟩ := hother.holds
  rcases Nat.lt_trichotomy place other with hlt | heq | hlt
  · exact absurd hholds' (h.last other event' hlt hevent')
  · exact heq
  · exact absurd hholds (hother.last place event hlt hevent)

/-- A new event with the property is the last one. -/
theorem lastAt_append_self (hholds : property event) :
    LastAt property (history ++ [event]) history.length := by
  constructor
  · exact ⟨event, by simp, hholds⟩
  · intro later other hlt hother
    have hlength := (List.getElem?_eq_some_iff.mp hother).1
    simp only [List.length_append, List.length_singleton] at hlength
    omega

/-- A new event without the property changes nothing. -/
theorem lastAt_append_iff (hnot : ¬ property event) :
    LastAt property (history ++ [event]) place ↔ LastAt property history place := by
  constructor
  · intro h
    have hlt : place < history.length := by
      by_contra hbeyond
      obtain ⟨other, hother, hholds⟩ := h.holds
      rw [List.getElem?_append_right (Nat.le_of_not_lt hbeyond)] at hother
      obtain rfl := List.mem_singleton.mp (List.mem_of_getElem? hother)
      exact hnot hholds
    constructor
    · obtain ⟨other, hother, hholds⟩ := h.holds
      rw [List.getElem?_append_left hlt] at hother
      exact ⟨other, hother, hholds⟩
    · intro later other hlater hother
      have hlength := (List.getElem?_eq_some_iff.mp hother).1
      apply h.last later other hlater
      rwa [List.getElem?_append_left hlength]
  · intro h
    constructor
    · obtain ⟨other, hother, hholds⟩ := h.holds
      exact ⟨other, by rwa [List.getElem?_append_left h.lt_length], hholds⟩
    · intro later other hlater hother
      by_cases hlength : later < history.length
      · rw [List.getElem?_append_left hlength] at hother
        exact h.last later other hlater hother
      · rw [List.getElem?_append_right (Nat.le_of_not_lt hlength)] at hother
        obtain rfl := List.mem_singleton.mp (List.mem_of_getElem? hother)
        exact hnot

/-- A new event with neither property keeps the comparison. -/
theorem lastBefore_append_iff (hfirst : ¬ first event) (hsecond : ¬ second event) :
    LastBefore first second (history ++ [event]) ↔ LastBefore first second history := by
  simp only [LastBefore, lastAt_append_iff hfirst, lastAt_append_iff hsecond]

/-- Of two elements of an ordered list, one is related to the other. -/
theorem rel_or_rel_of_pairwise {relation : α → α → Prop} {list : List α}
    (hpairwise : list.Pairwise relation) {a b : α} (ha : a ∈ list) (hb : b ∈ list)
    (hne : a ≠ b) : relation a b ∨ relation b a := by
  have heither := hpairwise.imp
    (fun {a b} (h : relation a b) => (Or.inl h : relation a b ∨ relation b a))
  have : Std.Symm fun a b => relation a b ∨ relation b a := ⟨fun _ _ h => h.symm⟩
  exact heither.forall ha hb hne

end Library
