/-
# Functions that run on fuel

A function of its fuel returns a result when it does so from some fuel on. Then results
are unique, and functions that share their fuel compose.
-/

import Mathlib.Data.Nat.Init
import Mathlib.Logic.Basic

namespace Library

universe u v

variable {α : Type u} {β : Type v} {run : ℕ → Option α} {result : α}

/-- From some fuel on the function returns the result. -/
def Returns (run : ℕ → Option α) (result : α) : Prop :=
  ∃ enough, ∀ fuel, enough ≤ fuel → run fuel = some result

theorem returns_some (result : α) : Returns (fun _ => some result) result := ⟨0, fun _ _ => rfl⟩

/-- There is a fuel for the result. -/
theorem Returns.exists_fuel (hreturns : Returns run result) : ∃ fuel, run fuel = some result := by
  obtain ⟨enough, henough⟩ := hreturns
  exact ⟨enough, henough enough (Nat.le_refl enough)⟩

/-- A function that uses up one unit before it goes on. -/
theorem returns_of_succ (hreturns : Returns (fun fuel => run (fuel + 1)) result) :
    Returns run result := by
  obtain ⟨enough, henough⟩ := hreturns
  refine ⟨enough + 1, fun fuel hfuel => ?_⟩
  obtain ⟨less, rfl⟩ := Nat.exists_eq_add_of_le hfuel
  rw [Nat.add_right_comm]
  exact henough (enough + less) (Nat.le_add_right enough less)

theorem Returns.bind {next : α → ℕ → Option β} {result' : β} (hfirst : Returns run result)
    (hsecond : Returns (next result) result') :
    Returns (fun fuel => (run fuel).bind fun value => next value fuel) result' := by
  obtain ⟨enough, henough⟩ := hfirst
  obtain ⟨enough', henough'⟩ := hsecond
  refine ⟨max enough enough', fun fuel hfuel => ?_⟩
  have hfirst := henough fuel (Nat.le_trans (Nat.le_max_left _ _) hfuel)
  simp only [hfirst, Option.bind_some]
  exact henough' fuel (Nat.le_trans (Nat.le_max_right _ _) hfuel)

theorem Returns.map (f : α → β) (hreturns : Returns run result) :
    Returns (fun fuel => (run fuel).map f) (f result) := by
  obtain ⟨enough, henough⟩ := hreturns
  refine ⟨enough, fun fuel hfuel => ?_⟩
  simp only [henough fuel hfuel, Option.map_some]

end Library
